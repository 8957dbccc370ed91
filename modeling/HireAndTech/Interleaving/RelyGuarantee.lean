import HireAndTech.Interleaving.Program

/-!
# Rely-guarantee reasoning for interleaved calls

A contract states an invariant of the shared world, the circumstances under
which a call may issue a command, and for every call a relation that each of its
steps keeps.  That a command keeps the invariant and the relation is proved once
for each command.  What remains of a program is its validity: it issues every
command in the right circumstances, under assertions that the steps of all other
calls leave true.

Main results:

- Theorems {lit}`Valid.cmd` and {lit}`Valid.bind`: the rules for one command and
  for sequencing.
- Theorems {lit}`Valid.except_bind` and {lit}`Valid.except_tryCatch`: the rules for
  blocks that an exception leaves, and for their handlers.
- Theorem {lit}`Valid.of_always`: the rule for a program all of whose commands keep one
  assertion.
- Theorem {lit}`Sound.reachable`: a sound contract holds in every reachable
  configuration.
- Theorem {lit}`Sound.invariant`: an inductive invariant may assume the contract
  at every step.
-/

namespace Interleaving

/-- An invariant of the world, the circumstances of every command, and the
relation that the steps of each call guarantee to the others. -/
structure Contract (World : Type) (Cmd : Type → Type) (Request : Type) where
  Inv : World → Prop
  Issues : {β : Type} → CallId → Request → World → Cmd β → Prop
  Guar : CallId → Request → World → World → Prop

variable {World : Type} {Cmd : Type → Type} {Choice Request Result : Type}

/-- An assertion of one call that the steps of every other call preserve. -/
def Contract.Stable (K : Contract World Cmd Request) (i : CallId) (P : World → Prop) : Prop :=
  ∀ j r, j ≠ i → ∀ w w', K.Inv w → K.Inv w' → K.Guar j r w w' → P w → P w'

namespace Contract

variable {K : Contract World Cmd Request} {i : CallId}

theorem stable_const (p : Prop) : K.Stable i fun _ => p :=
  fun _ _ _ _ _ _ _ _ h => h

theorem Stable.and {P Q : World → Prop} (hP : K.Stable i P) (hQ : K.Stable i Q) :
    K.Stable i fun w => P w ∧ Q w :=
  fun j r hj w w' hw hw' hg h => ⟨hP j r hj w w' hw hw' hg h.1, hQ j r hj w w' hw hw' hg h.2⟩

/-- An assertion that the steps of all calls preserve. -/
def Persistent (K : Contract World Cmd Request) (P : World → Prop) : Prop :=
  ∀ j r w w', K.Inv w → K.Inv w' → K.Guar j r w w' → P w → P w'

theorem Persistent.stable {P : World → Prop} (h : K.Persistent P) : K.Stable i P :=
  fun j r _ w w' => h j r w w'

end Contract

/-- The program of call {lit}`i`, started from a world with {lit}`P`, issues every
command in the circumstances of the contract and ends with {lit}`Q`.  Before every
command the assertion may be weakened to a stable one. -/
def Valid (M : Machine World Cmd Choice Request Result) (R : Regime World Cmd Choice Request)
    (K : Contract World Cmd Request) (i : CallId) (r : Request) {α : Type} :
    Prog Cmd α → (World → Prop) → (α → World → Prop) → Prop
  | .pure a, P, Q => ∀ w, K.Inv w → P w → Q a w
  | .step c next, P, Q =>
      ∃ P₁ : World → Prop, (∀ w, K.Inv w → P w → P₁ w) ∧ K.Stable i P₁ ∧
        (∀ w, K.Inv w → P₁ w → K.Issues i r w c) ∧
        ∀ b, ∃ P₂ : World → Prop,
          (∀ w w' ch, K.Inv w → K.Inv w' → K.Guar i r w w' → P₁ w →
            R.allows w r c ch = true → M.exec i c ch w = some (b, w') → P₂ w') ∧
          Valid M R K i r (next b) P₂ Q

/-- One postcondition for a block that ends, and one for an exception that leaves it. -/
def Ends {ε α : Type} (Q : α → World → Prop) (E : ε → World → Prop) :
    Except ε α → World → Prop
  | .ok a => Q a
  | .error e => E e

namespace Valid

variable {M : Machine World Cmd Choice Request Result} {R : Regime World Cmd Choice Request}
variable {K : Contract World Cmd Request} {i : CallId} {r : Request} {α β : Type}

/-- Returning a value. -/
theorem ret {a : α} {P : World → Prop} {Q : α → World → Prop}
    (h : ∀ w, K.Inv w → P w → Q a w) : Valid M R K i r (pure a) P Q :=
  h

/-- A stronger precondition. -/
theorem pre {p : Prog Cmd α} {P P' : World → Prop} {Q : α → World → Prop}
    (h : Valid M R K i r p P Q) (hpre : ∀ w, K.Inv w → P' w → P w) :
    Valid M R K i r p P' Q := by
  cases p with
  | pure a => exact fun w hw hP => h w hw (hpre w hw hP)
  | step c next =>
      obtain ⟨P₁, hP₁, hrest⟩ := h
      exact ⟨P₁, fun w hw hP => hP₁ w hw (hpre w hw hP), hrest⟩

/-- A weaker postcondition. -/
theorem post {p : Prog Cmd α} {P : World → Prop} {Q Q' : α → World → Prop}
    (h : Valid M R K i r p P Q) (hpost : ∀ a w, K.Inv w → Q a w → Q' a w) :
    Valid M R K i r p P Q' := by
  induction p generalizing P with
  | pure a => exact fun w hw hP => hpost a w hw (h w hw hP)
  | step c next ih =>
      obtain ⟨P₁, hP₁, hst, hissues, hnext⟩ := h
      refine ⟨P₁, hP₁, hst, hissues, fun b => ?_⟩
      obtain ⟨P₂, hexec, hvalid⟩ := hnext b
      exact ⟨P₂, hexec, ih b hvalid⟩

/-- Sequencing. -/
theorem bind {p : Prog Cmd α} {f : α → Prog Cmd β} {P : World → Prop}
    {Q : α → World → Prop} {Q' : β → World → Prop} (h : Valid M R K i r p P Q)
    (hf : ∀ a, Valid M R K i r (f a) (Q a) Q') : Valid M R K i r (p >>= f) P Q' := by
  induction p generalizing P with
  | pure a => exact (hf a).pre h
  | step c next ih =>
      obtain ⟨P₁, hP₁, hst, hissues, hnext⟩ := h
      refine ⟨P₁, hP₁, hst, hissues, fun b => ?_⟩
      obtain ⟨P₂, hexec, hvalid⟩ := hnext b
      exact ⟨P₂, hexec, ih b hvalid⟩

/-- One command from a stable assertion, with a postcondition for its answer. -/
theorem cmd {c : Cmd α} {P : World → Prop} {Q : α → World → Prop} (hst : K.Stable i P)
    (hissues : ∀ w, K.Inv w → P w → K.Issues i r w c)
    (h : ∀ b w w' ch, K.Inv w → K.Inv w' → K.Guar i r w w' → P w →
      R.allows w r c ch = true → M.exec i c ch w = some (b, w') → Q b w') :
    Valid M R K i r (Prog.perform c) P Q :=
  ⟨P, fun _ _ hP => hP, hst, hissues, fun b =>
    ⟨Q b, fun w w' ch => h b w w' ch, fun _ _ hQ => hQ⟩⟩

/-- An assertion that all calls preserve holds at the end if it holds at the start. -/
theorem frame {p : Prog Cmd α} {P F : World → Prop} {Q : α → World → Prop}
    (hF : K.Persistent F) (h : Valid M R K i r p P Q) :
    Valid M R K i r p (fun w => P w ∧ F w) fun a w => Q a w ∧ F w := by
  induction p generalizing P with
  | pure a => exact fun w hw hP => ⟨h w hw hP.1, hP.2⟩
  | step c next ih =>
      obtain ⟨P₁, hP₁, hst, hissues, hnext⟩ := h
      refine ⟨fun w => P₁ w ∧ F w, fun w hw hP => ⟨hP₁ w hw hP.1, hP.2⟩,
        hst.and hF.stable, fun w hw hP => hissues w hw hP.1, fun b => ?_⟩
      obtain ⟨P₂, hexec, hvalid⟩ := hnext b
      exact ⟨fun w => P₂ w ∧ F w, fun w w' ch hw hw' hg hP ha he =>
        ⟨hexec w w' ch hw hw' hg hP.1 ha he, hF i r w w' hw hw' hg hP.2⟩, ih b hvalid⟩

/-- From a contradiction. -/
theorem absurd {p : Prog Cmd α} {P : World → Prop} {Q : α → World → Prop} (h : ∀ w, ¬ P w) :
    Valid M R K i r p P Q := by
  induction p generalizing P with
  | pure a => exact fun w _ hP => (h w hP).elim
  | step c next ih =>
      exact ⟨fun _ => False, fun w _ => h w, K.stable_const False, fun _ _ hF => hF.elim,
        fun b => ⟨fun _ => False, fun _ _ _ _ _ _ hF => hF.elim, ih b fun _ => id⟩⟩

/-- A fact that does not depend on the world. -/
theorem assume {φ : Prop} {p : Prog Cmd α} {P : World → Prop} {Q : α → World → Prop}
    (h : φ → Valid M R K i r p P Q) : Valid M R K i r p (fun w => φ ∧ P w) Q := by
  by_cases hφ : φ
  · exact (h hφ).pre fun _ _ hP => hP.2
  · exact absurd fun _ hP => hφ hP.1

/-- A ghost value that the assertion quantifies over. -/
theorem exists_pre {ι : Type} {p : Prog Cmd α} {P : ι → World → Prop} {Q : α → World → Prop}
    (h : ∀ x, Valid M R K i r p (P x) Q) : Valid M R K i r p (fun w => ∃ x, P x w) Q := by
  induction p generalizing P with
  | pure a => exact fun w hw ⟨x, hx⟩ => h x w hw hx
  | step c next ih =>
      choose P₁ hP₁ hst hissues hnext using h
      refine ⟨fun w => ∃ x, P₁ x w, fun w hw ⟨x, hx⟩ => ⟨x, hP₁ x w hw hx⟩,
        fun j r hj w w' hw hw' hg ⟨x, hx⟩ => ⟨x, hst x j r hj w w' hw hw' hg hx⟩,
        fun w hw ⟨x, hx⟩ => hissues x w hw hx, fun b => ?_⟩
      choose P₂ hexec hvalid using fun x => hnext x b
      exact ⟨fun w => ∃ x, P₂ x w, fun w w' ch hw hw' hg ⟨x, hx⟩ ha he =>
        ⟨x, hexec x w w' ch hw hw' hg hx ha he⟩, ih b hvalid⟩

/-- The assertion of a valid program can be taken to be stable, also when the program
has ended. -/
theorem stable {p : Prog Cmd α} {P : World → Prop} {Q : α → World → Prop}
    (hQ : ∀ a, K.Stable i (Q a)) (h : Valid M R K i r p P Q) {w : World} (hw : K.Inv w)
    (hP : P w) : ∃ P₁ : World → Prop, K.Stable i P₁ ∧ P₁ w ∧ Valid M R K i r p P₁ Q := by
  cases p with
  | pure a => exact ⟨Q a, hQ a, h w hw hP, fun _ _ h => h⟩
  | step c next =>
      obtain ⟨P₁, hP₁, hst, hnext⟩ := h
      exact ⟨P₁, hst, hP₁ w hw hP, P₁, fun _ _ hP => hP, hst, hnext⟩

/-! ### Exceptions -/

variable {ε : Type}

/-- Sequencing inside a block that an exception leaves. -/
theorem except_bind {p : ExceptT ε (Prog Cmd) α} {f : α → ExceptT ε (Prog Cmd) β}
    {P : World → Prop} {Q : α → World → Prop} {Q' : β → World → Prop} {E : ε → World → Prop}
    (h : Valid M R K i r p.run P (Ends Q E))
    (hf : ∀ a, Valid M R K i r (f a).run (Q a) (Ends Q' E)) :
    Valid M R K i r (p >>= f).run P (Ends Q' E) :=
  h.bind fun
    | .ok a => hf a
    | .error _ => ret fun _ _ => id

/-- The end of a block. -/
theorem except_ret {a : α} {P : World → Prop} {Q : α → World → Prop} {E : ε → World → Prop}
    (h : ∀ w, K.Inv w → P w → Q a w) :
    Valid M R K i r (pure a : ExceptT ε (Prog Cmd) α).run P (Ends Q E) :=
  h

/-- Raising an exception. -/
theorem except_throw {e : ε} {P : World → Prop} {Q : α → World → Prop} {E : ε → World → Prop}
    (h : ∀ w, K.Inv w → P w → E e w) :
    Valid M R K i r (throw e : ExceptT ε (Prog Cmd) α).run P (Ends Q E) :=
  h

/-- A program that does not raise. -/
theorem except_lift {p : Prog Cmd α} {P : World → Prop} {Q : α → World → Prop}
    {E : ε → World → Prop} (h : Valid M R K i r p P Q) :
    Valid M R K i r (ExceptT.lift p : ExceptT ε (Prog Cmd) α).run P (Ends Q E) :=
  h.bind fun _ => ret fun _ _ => id

/-- A block with a handler for the exceptions that leave it. -/
theorem except_tryCatch {p : ExceptT ε (Prog Cmd) α} {f : ε → ExceptT ε (Prog Cmd) α}
    {P : World → Prop} {Q : α → World → Prop} {E E' : ε → World → Prop}
    (h : Valid M R K i r p.run P (Ends Q E))
    (hf : ∀ e, Valid M R K i r (f e).run (E e) (Ends Q E')) :
    Valid M R K i r (tryCatch p f).run P (Ends Q E') :=
  h.bind fun
    | .ok _ => ret fun _ _ => id
    | .error e => hf e

end Valid

/-! ## Programs whose commands all satisfy one predicate -/

/-- Every command that the program can issue, whatever the answers, satisfies the
predicate. -/
def Prog.Always {α : Type} (ok : {β : Type} → Cmd β → Prop) : Prog Cmd α → Prop
  | .pure _ => True
  | .step c next => ok c ∧ ∀ b, (next b).Always ok

namespace Prog

variable {α β ε : Type} {ok ok' : {β : Type} → Cmd β → Prop}

theorem Always.mono {p : Prog Cmd α} (h : p.Always ok)
    (hok : ∀ {β : Type} (c : Cmd β), ok c → ok' c) : p.Always ok' := by
  induction p with
  | pure a => trivial
  | step c next ih => exact ⟨hok c h.1, fun b => ih b (h.2 b)⟩

theorem Always.bind {p : Prog Cmd α} {f : α → Prog Cmd β} (h : p.Always ok)
    (hf : ∀ a, (f a).Always ok) : (p >>= f).Always ok := by
  induction p with
  | pure a => exact hf a
  | step c next ih => exact ⟨h.1, fun b => ih b (h.2 b)⟩

theorem Always.except_bind {p : ExceptT ε (Prog Cmd) α} {f : α → ExceptT ε (Prog Cmd) β}
    (h : p.run.Always ok) (hf : ∀ a, (f a).run.Always ok) : (p >>= f).run.Always ok := by
  refine Always.bind h fun a => ?_
  cases a with
  | ok a => exact hf a
  | error e => trivial

theorem always_attempt {c : Cmd (Except ε α)} (h : ok c) : (attempt c).run.Always ok :=
  ⟨h, fun _ => trivial⟩

end Prog

/-- A program all of whose commands keep one stable assertion. -/
theorem Valid.of_always {M : Machine World Cmd Choice Request Result}
    {R : Regime World Cmd Choice Request} {K : Contract World Cmd Request} {i : CallId}
    {r : Request} {α : Type} {ok : {β : Type} → Cmd β → Prop} {p : Prog Cmd α}
    {P : World → Prop} (hst : K.Stable i P)
    (hissues : ∀ {β : Type} (c : Cmd β) w, ok c → K.Inv w → P w → K.Issues i r w c)
    (hkeep : ∀ {β : Type} (c : Cmd β) b w w' ch, ok c → K.Inv w → K.Guar i r w w' → P w →
      M.exec i c ch w = some (b, w') → P w')
    (h : p.Always ok) : Valid M R K i r p P fun _ => P := by
  induction p with
  | pure a => exact fun w _ hP => hP
  | step c next ih =>
      refine ⟨P, fun w _ hP => hP, hst, fun w hw hP => hissues c w h.1 hw hP, fun b => ?_⟩
      refine ⟨P, fun w w' ch hw _ hg hP _ he => hkeep c b w w' ch h.1 hw hg hP he, ?_⟩
      exact ih b (h.2 b)

/-! ## Soundness -/

variable {M : Machine World Cmd Choice Request Result} {R : Regime World Cmd Choice Request}
variable {K : Contract World Cmd Request} {w₀ : World}
variable {Pre : CallId → World → Prop} {Post : CallId → Request → Result → World → Prop}

/-- The obligations of a contract.  {lit}`Pre i` holds of the world as long as call
{lit}`i` has not been started, and {lit}`Post i r a` once its request {lit}`r` has
been answered with {lit}`a`. -/
structure Sound (M : Machine World Cmd Choice Request Result)
    (R : Regime World Cmd Choice Request) (K : Contract World Cmd Request) (w₀ : World)
    (Pre : CallId → World → Prop) (Post : CallId → Request → Result → World → Prop) : Prop where
  init : K.Inv w₀
  pre_init : ∀ i, Pre i w₀
  pre_stable : ∀ i, K.Stable i (Pre i)
  post_stable : ∀ i r a, K.Stable i (Post i r a)
  exec : ∀ i r {β : Type} (cmd : Cmd β) ch b w w', R.starts i r = true → K.Inv w →
    K.Issues i r w cmd → R.allows w r cmd ch = true → M.exec i cmd ch w = some (b, w') →
    K.Inv w' ∧ K.Guar i r w w'
  close : ∀ i r w, R.starts i r = true → K.Inv w →
    K.Inv (M.close i w) ∧ K.Guar i r w (M.close i w)
  refl : ∀ i r w, R.starts i r = true → K.Inv w → K.Guar i r w w
  valid : ∀ i r, R.starts i r = true → Valid M R K i r (M.program r) (Pre i) (Post i r)

/-- What a sound contract knows about one call. -/
def CallHolds (M : Machine World Cmd Choice Request Result)
    (R : Regime World Cmd Choice Request) (K : Contract World Cmd Request)
    (Pre : CallId → World → Prop) (Post : CallId → Request → Result → World → Prop)
    (i : CallId) (w : World) : CallState Cmd Request Result → Prop
  | .idle => Pre i w
  | .running r p => ∃ P : World → Prop, K.Stable i P ∧ P w ∧ Valid M R K i r p P (Post i r)
  | .ended _ _ => True

theorem CallHolds.stable (hpre : ∀ i, K.Stable i (Pre i)) {i j : CallId} {r : Request}
    (hj : j ≠ i) {w w' : World} (hw : K.Inv w) (hw' : K.Inv w') (hg : K.Guar j r w w')
    {s : CallState Cmd Request Result} (h : CallHolds M R K Pre Post i w s) :
    CallHolds M R K Pre Post i w' s := by
  cases s with
  | idle => exact hpre i j r hj w w' hw hw' hg h
  | running r' p =>
      obtain ⟨P, hst, hP, hvalid⟩ := h
      exact ⟨P, hst, hst j r hj w w' hw hw' hg hP, hvalid⟩
  | ended r' res => trivial

/-- One step of call {lit}`j` that keeps the contract and leaves call {lit}`j` in a
known state leaves every call in a known state. -/
theorem callHolds_put (hpre : ∀ i, K.Stable i (Pre i))
    {c : Config World Cmd Request Result} {j : CallId} {r : Request} {w : World}
    {s : CallState Cmd Request Result} (hw : K.Inv c.world) (hw' : K.Inv w)
    (hg : K.Guar j r c.world w) (hs : CallHolds M R K Pre Post j w s)
    (h : ∀ i, CallHolds M R K Pre Post i c.world (c.calls i)) (i : CallId) :
    CallHolds M R K Pre Post i (c.put w j s).world ((c.put w j s).calls i) := by
  by_cases hij : i = j
  · subst hij
    rw [Config.put_calls_self]
    exact hs
  · rw [Config.put_calls_of_ne _ _ _ hij]
    exact (h i).stable hpre (Ne.symm hij) hw hw' hg

namespace Sound

/-- In every reachable configuration the invariant holds, and every call is in a
state that its program knows. -/
theorem reachable (S : Sound M R K w₀ Pre Post) {c : Config World Cmd Request Result}
    (h : M.Reachable R w₀ c) :
    K.Inv c.world ∧ ∀ i, CallHolds M R K Pre Post i c.world (c.calls i) := by
  induction h with
  | initial => exact ⟨S.init, S.pre_init⟩
  | @next c c' l h hp hn ih =>
      obtain ⟨hw, hcalls⟩ := ih
      rcases Machine.next_cases hn with ⟨i, r, rfl, hi, rfl⟩ |
        ⟨i, ch, r, β, cmd, k, b, w, rfl, hi, hexec, rfl⟩ | ⟨i, r, res, ⟨p, hi⟩, rfl⟩
      · have hpre : Pre i c.world := by simpa [CallHolds, hi] using hcalls i
        exact ⟨hw, callHolds_put S.pre_stable hw hw (S.refl i r _ hp hw)
          ((S.valid i r hp).stable (S.post_stable i r) hw hpre) hcalls⟩
      · have hcall := hcalls i
        rw [hi] at hcall
        obtain ⟨P, _, hP, P₁, hP₁, _, hissues, hnext⟩ := hcall
        have hP₁ := hP₁ _ hw hP
        have hallow : R.allows c.world r cmd ch = true := by
          simpa [Regime.permits, hi] using hp
        obtain ⟨hw', hg⟩ := S.exec i r cmd ch b _ _ (h.starts hi) hw (hissues _ hw hP₁) hallow hexec
        obtain ⟨P₂, hstep, hvalid⟩ := hnext b
        have hP₂ := hstep _ _ ch hw hw' hg hP₁ hallow hexec
        exact ⟨hw', callHolds_put S.pre_stable hw hw' hg
          (hvalid.stable (S.post_stable i r) hw' hP₂) hcalls⟩
      · obtain ⟨hw', hg⟩ := S.close i r c.world (h.starts hi) hw
        exact ⟨hw', callHolds_put S.pre_stable hw hw' hg trivial hcalls⟩

/-- A running call issues its next command in the circumstances of the contract. -/
theorem issues (S : Sound M R K w₀ Pre Post) {c : Config World Cmd Request Result}
    (h : M.Reachable R w₀ c) {i : CallId} {r : Request} {β : Type} {cmd : Cmd β}
    {k : β → Prog Cmd Result} (hi : c.calls i = .running r (.step cmd k)) :
    K.Issues i r c.world cmd := by
  obtain ⟨hw, hcalls⟩ := S.reachable h
  have hcall := hcalls i
  rw [hi] at hcall
  obtain ⟨P, _, hP, P₁, hP₁, _, hissues, _⟩ := hcall
  exact hissues _ hw (hP₁ _ hw hP)

/-- A call that has returned its result satisfies its postcondition. -/
theorem returned (S : Sound M R K w₀ Pre Post) {c : Config World Cmd Request Result}
    (h : M.Reachable R w₀ c) {i : CallId} {r : Request} {a : Result}
    (hi : c.calls i = .running r (.pure a)) : Post i r a c.world := by
  obtain ⟨hw, hcalls⟩ := S.reachable h
  have hcall := hcalls i
  rw [hi] at hcall
  obtain ⟨P, _, hP, hvalid⟩ := hcall
  exact hvalid _ hw hP

/-- An invariant of the runs under a regime, proved from one step of one command and
from the end of a call, both of which may assume the contract. -/
theorem invariant (S : Sound M .any K w₀ Pre Post) {J : World → Prop} (hinit : J w₀)
    (hexec : ∀ i r {β : Type} (cmd : Cmd β) ch b w w', R.starts i r = true → K.Inv w →
      K.Inv w' → K.Guar i r w w' → K.Issues i r w cmd → R.allows w r cmd ch = true →
      M.exec i cmd ch w = some (b, w') → J w → J w')
    (hclose : ∀ i w, K.Inv w → J w → J (M.close i w))
    {c : Config World Cmd Request Result} (h : M.Reachable R w₀ c) : J c.world := by
  induction h with
  | initial => exact hinit
  | @next c c' l h hp hn ih =>
      have hany : M.Reachable .any w₀ c := h.mono (fun _ _ _ => rfl) fun _ _ _ _ _ _ _ => rfl
      have hw := (S.reachable hany).1
      rcases Machine.next_cases hn with ⟨i, r, rfl, hi, rfl⟩ |
        ⟨i, ch, r, β, cmd, k, b, w, rfl, hi, he, rfl⟩ | ⟨i, r, res, ⟨p, hi⟩, rfl⟩
      · exact ih
      · have hissues := S.issues hany hi
        have hallow : R.allows c.world r cmd ch = true := by
          simpa [Regime.permits, hi] using hp
        obtain ⟨hw', hg⟩ := S.exec i r cmd ch b _ _ rfl hw hissues rfl he
        exact hexec i r cmd ch b _ _ (h.starts hi) hw hw' hg hissues hallow he ih
      · exact hclose i _ hw ih

end Sound

end Interleaving

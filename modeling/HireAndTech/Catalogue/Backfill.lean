import HireAndTech.Catalogue.ContentHash
import HireAndTech.Catalogue.DualWrite
import HireAndTech.Text.Words

/-!
# The backfill of the catalogue

Migration 0007 fills the catalogue from {lit}`global_jobs`.  It normalizes names of companies and
places in SQL, where {lit}`lower` maps characters one by one, while ingestion folds the case of
their NFKC form.  What PostgreSQL does with characters is a parameter.

Main results:

- Definition {lit}`upgrade`: the catalogue after the migration.
- Theorem {lit}`joined_writes`: the names of the legacy rows are words with single spaces.
- Theorem {lit}`backfill_agrees_iff`: for which legacy rows the two normalizations agree.
-/

namespace HireAndTech
namespace Catalogue
namespace Backfill

open Relational Text

/-! ## The migration -/

/-- What the statements of the migration call. -/
structure Postgres where
  lower : Char → Char
  space : Char → Bool
  least : List String → String
  md5 : String → String
  companyId : String → UUID
  sourceId : UUID → UUID

/-- White space is white space of Python too, and {lit}`lower` leaves it as it is. -/
structure Postgres.Documented (pg : Postgres) : Prop where
  space_blank : pg.space ' ' = true
  isSpace_of_space : ∀ c, pg.space c = true → isSpace c = true
  lower_blank : pg.lower ' ' = ' '
  isSpace_lower : ∀ c, isSpace (pg.lower c) = isSpace c

section

variable (pg : Postgres)

/-- `btrim(…)`. -/
def btrim (text : String) : String :=
  String.ofList (strip (· = ' ') text.toList)

/-- `lower(regexp_replace(btrim(…), '\s+', ' ', 'g'))`. -/
def normalized (text : String) : String :=
  String.ofList ((collapse pg.space (btrim text).toList).map pg.lower)

/-- `company IS NOT NULL AND btrim(company) <> ''`. -/
def namedCompanies (rows : List GlobalJob) : List String :=
  (rows.filterMap (·.company)).filter fun company => btrim company ≠ ""

/-- A group of companies with one normalized name. -/
def companyOf (rows : List GlobalJob) (normalizedName : String) : Company where
  id := pg.companyId normalizedName
  name := pg.least (((namedCompanies rows).filter fun company =>
    normalized pg company = normalizedName).map btrim)
  normalizedName := normalizedName

/-- `INSERT INTO hireandtech.companies`. -/
def companies (rows : List GlobalJob) : List Company :=
  ((namedCompanies rows).map (normalized pg)).dedup.map (companyOf pg rows)

/-- `INSERT INTO hireandtech.jobs`, of one row. -/
def jobOf (firstSeenAt : UUID → Time) (companies : List Company) (row : GlobalJob) :
    CanonicalJob where
  id := row.id
  companyId := (row.company.bind fun company =>
    companies.find? (·.normalizedName = normalized pg company)).map (·.id)
  title := row.jobTitle
  normalizedTitle := row.normalizedTitle
  description := row.description
  location := row.location
  normalizedLocation := row.location.map (normalized pg)
  employmentType := row.employmentType
  remoteType := remoteTypeOf row.remote
  skills := row.skills
  experienceMinYears := row.experienceMinYears
  experienceMaxYears := row.experienceMaxYears
  experienceText := row.experienceText
  roleFamily := row.roleFamily
  salaryMin := none
  salaryMax := none
  salaryCurrency := none
  salaryText := row.salaryText
  salaryPeriod := none
  postedAt := row.postedAt
  sourceUpdatedAt := none
  firstSeenAt := firstSeenAt row.id
  lastSeenAt := row.lastSeenAt
  isActive := row.isActive
  canonicalHash := pg.md5 row.id.str ++ pg.md5 (row.id.str ++ "-canonical")

/-- `content_hash ~ '^[0-9a-f]{64}$'`. -/
def isSha256 (text : String) : Bool :=
  text.toList.length = 64 && text.toList.all fun c => c.isDigit || ('a' ≤ c && c ≤ 'f')

/-- `INSERT INTO hireandtech.job_sources`, of one row. -/
def sourceOf (firstSeenAt : UUID → Time) (row : GlobalJob) : JobSourceObservation where
  id := pg.sourceId row.id
  jobId := row.id
  source := row.source
  sourceJobId := row.externalJobId
  sourceUrl := row.jobUrl
  sourcePostedAt := row.postedAt
  sourceUpdatedAt := none
  firstSeenAt := firstSeenAt row.id
  lastSeenAt := row.lastSeenAt
  scrapedAt := row.scrapedAt
  contentHash :=
    if isSha256 row.contentHash then row.contentHash
    else pg.md5 row.id.str ++ pg.md5 (row.id.str ++ "-content")
  isActive := row.isActive
  rawData := [("legacy_global_job_id", "\"" ++ row.id.str ++ "\"")]

/-- `upgrade`, with the column {lit}`first_seen_at` of the legacy rows. -/
def upgrade (firstSeenAt : UUID → Time) (t : LegacyTable) : Database where
  companies := companies pg t.rows
  jobs := t.rows.map (jobOf pg firstSeenAt (companies pg t.rows))
  observations := t.rows.map (sourceOf pg firstSeenAt)

end

/-! ## Legacy rows -/

/-- A payload that is written to the legacy table, with what the write reads. -/
structure Write where
  raw : RawSourceJob
  now : Time
  newId : UUID
deriving DecidableEq, Repr

section

variable (u : Unicode) (parsing : Parsing)

/-- The normalization of a payload and the upsert of the listing; one that raises writes nothing. -/
def write (t : LegacyTable) (call : Write) : LegacyTable :=
  match normalizeJob u parsing call.raw with
  | .error _ => t
  | .ok job => ((t.upsertWithOutcome job call.now call.newId).map (·.1)).getD t

def writes (calls : List Write) : LegacyTable :=
  calls.foldl (write u parsing) emptyStores.legacy

end

/-- A text of words with single spaces between them. -/
def Joined (text : String) : Prop :=
  joinSplit text = text

section

variable {u : Unicode} {parsing : Parsing} {raw : RawSourceJob} {job : NormalizedJob}
  {t t' : LegacyTable} {row g : GlobalJob} {now : Time} {newId : UUID}
  {status : JobUpsertStatus} {call : Write} {text : String}

theorem joined_joinSplit (text : String) : Joined (joinSplit text) := by
  simp [Joined, joinSplit, joinWords_idem (show isSpace ' ' = true by decide)]

/-- The names in a row are joined. -/
structure RowJoined (row : GlobalJob) : Prop where
  company : ∀ text ∈ row.company, Joined text
  location : ∀ text ∈ row.location, Joined text

theorem normalizeJob_joined (h : normalizeJob u parsing raw = .ok job) :
    (∀ text ∈ job.company, Joined text) ∧ ∀ text ∈ job.location, Joined text := by
  have hmap (name : Option String) :
      ∀ text ∈ if truthy name then name.map joinSplit else none, Joined text := by
    intro text htext
    split at htext
    · obtain ⟨raw, -, rfl⟩ := Option.map_eq_some_iff.mp htext
      exact joined_joinSplit raw
    · contradiction
  unfold normalizeJob at h
  dsimp only at h
  split at h
  · contradiction
  · cases h
    exact ⟨hmap raw.company, hmap raw.location⟩

theorem preferText_joined {incoming existing : Option String}
    (hincoming : ∀ text ∈ incoming, Joined text) (hexisting : ∀ text ∈ existing, Joined text) :
    ∀ text ∈ preferText incoming existing, Joined text := by
  unfold preferText
  split
  · exact hincoming
  · exact hexisting

theorem rowJoined_merge (hrow : RowJoined row) (hg : RowJoined g) :
    RowJoined (mergeValues row g) where
  company := preferText_joined hg.company hrow.company
  location := preferText_joined hg.location hrow.location

/-- An upsert changes no row but the one that it returns. -/
theorem upsert_rows (h : t.upsertWithOutcome job now newId = some (t', row, status))
    (hg : g ∈ t'.rows) : g ∈ t.rows ∨ g = row := by
  unfold LegacyTable.upsertWithOutcome at h
  split at h
  · obtain ⟨table, hinsert, heq⟩ := Option.map_eq_some_iff.mp h
    cases heq
    unfold LegacyTable.insert at hinsert
    split at hinsert
    · cases hinsert
      simpa using hg
    · contradiction
  · obtain ⟨table, hupdate, heq⟩ := Option.map_eq_some_iff.mp h
    cases heq
    unfold LegacyTable.update at hupdate
    split at hupdate
    · cases hupdate
      obtain ⟨x, hx, rfl⟩ := mem_updateWhere.mp hg
      split
      · exact Or.inr rfl
      · exact Or.inl hx
    · contradiction

theorem joined_write (h : ∀ g ∈ t.rows, RowJoined g) :
    ∀ g ∈ (write u parsing t call).rows, RowJoined g := by
  unfold write
  split
  · exact h
  · rename_i job hjob
    cases hupsert : t.upsertWithOutcome job call.now call.newId with
    | none => exact h
    | some result =>
        obtain ⟨t', row, status⟩ := result
        intro g hg
        rcases upsert_rows hupsert hg with hg | rfl
        · exact h g hg
        · obtain ⟨hcompany, hlocation⟩ := normalizeJob_joined hjob
          rw [LegacyTable.upsert_row hupsert]
          split
          · exact ⟨hcompany, hlocation⟩
          · rename_i existing hget
            exact rowJoined_merge (h existing (LegacyTable.get_eq_some hget).1)
              ⟨hcompany, hlocation⟩

/-- The names in every legacy row are joined. -/
theorem joined_writes (calls : List Write) : ∀ g ∈ (writes u parsing calls).rows, RowJoined g := by
  have hrun (t : LegacyTable) (h : ∀ g ∈ t.rows, RowJoined g) :
      ∀ g ∈ (calls.foldl (write u parsing) t).rows, RowJoined g := by
    induction calls generalizing t with
    | nil => exact h
    | cons call calls ih => exact ih _ (joined_write h)
  exact hrun _ fun g hg => absurd hg List.not_mem_nil

/-! ## Normalized names -/

/-- Word for word, the folded NFKC form of a text is the text in lower case. -/
def FoldsAsLower (u : Unicode) (pg : Postgres) (text : String) : Prop :=
  words isSpace (u.casefold (u.nfkc text.toList)) =
    (words isSpace text.toList).map (List.map pg.lower)

end

section

variable {u : Unicode} {pg : Postgres} {text : String}

theorem Joined.toList (h : Joined text) : joinWords isSpace text.toList = text.toList := by
  rw [← String.toList_ofList (l := joinWords isSpace text.toList)]
  exact congrArg String.toList h

/-- Joined names keep their spaces. -/
theorem btrim_joined (h : Joined text) : btrim text = text := by
  have hblank (c : Char) (hc : decide (c = ' ') = true) : isSpace c = true := by
    rw [of_decide_eq_true hc]
    decide
  rw [btrim, ← h.toList, strip_joinWords hblank, h.toList, String.ofList_toList]

theorem normalized_joined (hpg : pg.Documented) (h : Joined text) :
    normalized pg text = String.ofList (text.toList.map pg.lower) := by
  rw [normalized, btrim_joined h, ← h.toList,
    collapse_joinWords hpg.space_blank hpg.isSpace_of_space]

/-- The two normalizations agree on a joined name when they agree word for word. -/
theorem normalized_eq_iff (hpg : pg.Documented) (h : Joined text) :
    normalized pg text = normalizeName u text ↔ FoldsAsLower u pg text := by
  have hspace : isSpace ' ' = true := by decide
  have hlower : text.toList.map pg.lower = joinWords isSpace (text.toList.map pg.lower) := by
    rw [joinWords_map hpg.isSpace_lower hpg.lower_blank, h.toList]
  rw [normalized_joined hpg h, normalizeName, String.ofList_inj, hlower,
    joinWords_eq_joinWords_iff hspace, words_map hpg.isSpace_lower, FoldsAsLower, eq_comm]

/-- Case folding maps characters one by one to texts, and leaves spaces as they are. -/
structure FoldsCharacters (casefold : List Char → List Char) : Prop where
  chars : ∀ cs, casefold cs = cs.flatMap fun c => casefold [c]
  space : ∀ c, isSpace c = true → casefold [c] = [c]
  word : ∀ c, isSpace c = false → casefold [c] ≠ [] ∧ ∀ d ∈ casefold [c], isSpace d = false

theorem length_le_length_flatMap {f : Char → List Char} {cs : List Char}
    (hne : ∀ c ∈ cs, f c ≠ []) : cs.length ≤ (cs.flatMap f).length := by
  have hsum := List.length_le_sum_of_one_le (cs.map fun c => (f c).length) fun n hn => by
    obtain ⟨c, hc, rfl⟩ := List.mem_map.mp hn
    exact List.length_pos_of_ne_nil (hne c hc)
  rwa [List.length_map, ← List.length_flatMap] at hsum

/-- Texts that are not empty stand for single characters only when each is one. -/
theorem flatMap_eq_map_iff {f : Char → List Char} {g : Char → Char} {cs : List Char}
    (hne : ∀ c ∈ cs, f c ≠ []) : cs.flatMap f = cs.map g ↔ ∀ c ∈ cs, f c = [g c] := by
  constructor
  · induction cs with
    | nil => simp
    | cons c cs ih =>
        intro h
        have htail : ∀ d ∈ cs, f d ≠ [] := fun d hd => hne d (List.mem_cons_of_mem c hd)
        rw [List.flatMap_cons, List.map_cons] at h
        cases hpiece : f c with
        | nil => exact absurd hpiece (hne c List.mem_cons_self)
        | cons d rest =>
            rw [hpiece, List.cons_append, List.cons.injEq] at h
            have hlength := congrArg List.length h.2
            have hle := length_le_length_flatMap htail
            rw [List.length_append, List.length_map] at hlength
            have hrest : rest = [] := List.eq_nil_of_length_eq_zero (by omega)
            rw [hrest, List.nil_append] at h
            rw [List.forall_mem_cons, hpiece, hrest, h.1]
            exact ⟨rfl, ih htail h.2⟩
  · intro h
    rw [List.map_eq_flatMap]
    exact List.flatMap_congr h

/-- A joined name in NFKC agrees when every character of it is folded as it is lowered. -/
theorem foldsAsLower_iff_of_nfkc (hu : FoldsCharacters u.casefold) (h : Joined text)
    (hnfkc : u.nfkc text.toList = text.toList) :
    FoldsAsLower u pg text ↔
      ∀ c ∈ text.toList, c = ' ' ∨ u.casefold [c] = [pg.lower c] := by
  rw [FoldsAsLower, hnfkc, hu.chars, words_flatMap (fun c hc => ⟨c, hu.space c hc, hc⟩) hu.word,
    List.map_inj_left]
  have hword (word : List Char) (hmem : word ∈ words isSpace text.toList) :
      word.flatMap (fun c => u.casefold [c]) = word.map pg.lower ↔
        ∀ c ∈ word, u.casefold [c] = [pg.lower c] :=
    flatMap_eq_map_iff fun c hc => (hu.word c (space_of_mem_words hmem hc)).1
  constructor
  · intro hall c hc
    rw [← h.toList] at hc
    refine (mem_intercalate hc).imp_right fun ⟨word, hmem, hcword⟩ => ?_
    exact (hword word hmem).mp (hall word hmem) c hcword
  · intro hall word hmem
    refine (hword word hmem).mpr fun c hc => ?_
    refine (hall c (mem_of_mem_words hmem hc)).resolve_left ?_
    rintro rfl
    exact absurd (space_of_mem_words hmem hc) (by decide)

end

/-! ## The migrated catalogue -/

/-- The migration normalizes the names in a legacy row as ingestion does, and ingestion of a listing
of its employer at any later time finds the company that the migration gave the row. -/
structure BackfillAgrees (u : Unicode) (parsing : Parsing) (pg : Postgres) (rt : Runtime)
    (firstSeenAt : UUID → Time) (t : LegacyTable) (row : GlobalJob) : Prop where
  company : ∀ company ∈ row.company, normalized pg company = normalizeCompanyName u company
  location : ∀ location ∈ row.location, normalized pg location = normalizeLocation u location
  reused : ∀ raw job ops newId, normalizeJob u parsing raw = .ok job → job.company = row.company →
    truthy row.company = true →
    ∃ company ∈ (upgrade pg firstSeenAt t).companies,
      (∃ j ∈ (upgrade pg firstSeenAt t).jobs, j.id = row.id ∧ j.companyId = some company.id) ∧
      (run rt (upgrade pg firstSeenAt t) ops).resolveCompany job newId =
        some (run rt (upgrade pg firstSeenAt t) ops, some company)

section

variable {u : Unicode} {parsing : Parsing} {pg : Postgres} {rt : Runtime}
  {firstSeenAt : UUID → Time} {t : LegacyTable} {rows : List GlobalJob} {row : GlobalJob}
  {c c' : Database} {name normalizedName : String} {company : Company} {op : Op} {ops : List Op}

/-- A named company has a row with its normalized name. -/
theorem find_companies (pg : Postgres) (hrow : row ∈ rows) (hname : row.company = some name)
    (hne : btrim name ≠ "") :
    ∃ company,
      (companies pg rows).find? (·.normalizedName = normalized pg name) = some company := by
  have hnamed : name ∈ namedCompanies rows :=
    List.mem_filter.mpr ⟨List.mem_filterMap.mpr ⟨row, hrow, hname⟩, by simpa using hne⟩
  have hmem : companyOf pg rows (normalized pg name) ∈ companies pg rows :=
    List.mem_map_of_mem (List.mem_dedup.mpr (List.mem_map_of_mem hnamed))
  cases hfind : (companies pg rows).find? (·.normalizedName = normalized pg name) with
  | none =>
      have hnot := List.find?_eq_none.mp hfind _ hmem
      exact absurd (decide_eq_true rfl) hnot
  | some company => exact ⟨company, rfl⟩

/-- A company that is found under its normalized name is found after every later call. -/
theorem find_step (h : c.companies.find? (·.normalizedName = normalizedName) = some company)
    (hstep : step rt c op = some c') :
    c'.companies.find? (·.normalizedName = normalizedName) = some company := by
  rcases companies_step hstep with hcompanies | ⟨added, hcompanies, -⟩
  · rwa [hcompanies]
  · rw [hcompanies, List.find?_append, h, Option.some_or]

theorem find_run (rt : Runtime) (ops : List Op) (c : Database)
    (h : c.companies.find? (·.normalizedName = normalizedName) = some company) :
    (run rt c ops).companies.find? (·.normalizedName = normalizedName) = some company := by
  induction ops generalizing c with
  | nil => exact h
  | cons op ops ih =>
      rw [run, List.foldl_cons]
      refine ih _ ?_
      cases hstep : step rt c op with
      | none => exact h
      | some c' => exact find_step h hstep

theorem normalizedCompany_eq {raw : RawSourceJob} {job : NormalizedJob}
    (h : normalizeJob u parsing raw = .ok job) (hname : job.company = some name) (hne : name ≠ "") :
    job.normalizedCompany = some (normalizeCompanyName u name) := by
  rw [(derived_eq h).2.2.1, hname, if_pos (by simpa [truthy] using hne), Option.map_some]

/-- The two normalizations agree on the names in a row exactly if folding agrees with lowering. -/
theorem agrees_iff_foldsAsLower (hpg : pg.Documented) (calls : List Write)
    (hrow : row ∈ (writes u parsing calls).rows) :
    BackfillAgrees u parsing pg rt firstSeenAt (writes u parsing calls) row ↔
      ∀ text, text ∈ row.company ∨ text ∈ row.location → FoldsAsLower u pg text := by
  have hjoined := joined_writes calls row hrow
  constructor
  · rintro hagrees text (hcompany | hlocation)
    · exact (normalized_eq_iff hpg (hjoined.company text hcompany)).mp
        (hagrees.company text hcompany)
    · exact (normalized_eq_iff hpg (hjoined.location text hlocation)).mp
        (hagrees.location text hlocation)
  · intro hfolds
    have hcompanies : ∀ name ∈ row.company, normalized pg name = normalizeCompanyName u name :=
      fun name hname => (normalized_eq_iff hpg (hjoined.company name hname)).mpr
        (hfolds name (Or.inl hname))
    refine ⟨hcompanies, fun place hplace => ?_, ?_⟩
    · exact (normalized_eq_iff hpg (hjoined.location place hplace)).mpr
        (hfolds place (Or.inr hplace))
    · intro raw job ops newId hjob hsame htruthy
      obtain ⟨name, hname, hne⟩ := (Option.any_eq_true _ _).mp htruthy
      have hne : name ≠ "" := of_decide_eq_true hne
      have hbtrim : btrim name ≠ "" := by rwa [btrim_joined (hjoined.company name hname)]
      obtain ⟨company, hfind⟩ := find_companies pg hrow hname hbtrim
      refine ⟨company, List.mem_of_find?_eq_some hfind, ?_, ?_⟩
      · refine ⟨_, List.mem_map_of_mem hrow, rfl, ?_⟩
        simp only [jobOf, hname, Option.bind_some, hfind, Option.map_some]
      · have hlater := find_run rt ops (upgrade pg firstSeenAt (writes u parsing calls)) hfind
        rw [hcompanies name hname] at hlater
        simp only [Database.resolveCompany, hsame.trans hname,
          normalizedCompany_eq hjob (hsame.trans hname) hne, hlater]

/-- The two normalizations agree on the names in a row exactly if folding agrees with lowering, word
for word, and character for character when the names are in NFKC. -/
theorem backfill_agrees_iff (hpg : pg.Documented) (calls : List Write)
    (hrow : row ∈ (writes u parsing calls).rows) :
    (BackfillAgrees u parsing pg rt firstSeenAt (writes u parsing calls) row ↔
      ∀ text, text ∈ row.company ∨ text ∈ row.location → FoldsAsLower u pg text) ∧
    (FoldsCharacters u.casefold →
      (∀ text, text ∈ row.company ∨ text ∈ row.location → u.nfkc text.toList = text.toList) →
      (BackfillAgrees u parsing pg rt firstSeenAt (writes u parsing calls) row ↔
        ∀ text, text ∈ row.company ∨ text ∈ row.location →
          ∀ c ∈ text.toList, c = ' ' ∨ u.casefold [c] = [pg.lower c])) := by
  have hjoined := joined_writes calls row hrow
  refine ⟨agrees_iff_foldsAsLower hpg calls hrow, fun hu hnfkc => ?_⟩
  rw [agrees_iff_foldsAsLower hpg calls hrow]
  refine forall₂_congr fun text htext => foldsAsLower_iff_of_nfkc hu ?_ (hnfkc text htext)
  exact htext.elim (hjoined.company text) (hjoined.location text)

end

/-! ## Two employers -/

/-- Characters of the texts below: {lit}`casefold` replaces the sharp s. -/
def sharpFolding : Unicode :=
  { Unicode.ascii with
    casefold := fun cs => cs.flatMap fun c => if c = 'ß' then ['s', 's'] else [c.toLower] }

/-- PostgreSQL on these texts: {lit}`lower` keeps the sharp s. -/
def sharpPostgres : Postgres where
  lower := Char.toLower
  space c := c = ' ' || (9 ≤ c.toNat && c.toNat ≤ 13)
  least names := names.headD ""
  md5 text :=
    if text = "00000000-0000-0000-0000-000000000009" then "be0908382fdd9d112f4afcc5ab9114fc"
    else "a3f3fef0801094b1a1a272bc9558a887"
  companyId _ := 1
  sourceId _ := 2

theorem documented_sharpPostgres : sharpPostgres.Documented where
  space_blank := by decide
  isSpace_of_space c := by
    by_cases hc : c.toNat < 128
    · exact of_ascii (P := fun c => sharpPostgres.space c = true → isSpace c = true)
        (by decide) hc
    · intro hspace
      simp only [sharpPostgres, Bool.or_eq_true, Bool.and_eq_true, decide_eq_true_eq] at hspace
      rcases hspace with rfl | hspace
      · decide
      · omega
  lower_blank := by decide
  isSpace_lower c := by
    by_cases hc : c.toNat < 128
    · exact of_ascii (P := fun c => isSpace c.toLower = isSpace c) (by decide) hc
    · exact congrArg isSpace (toLower_of_not_ascii (not_lt.mp hc))

theorem foldsCharacters_sharpFolding : FoldsCharacters sharpFolding.casefold where
  chars cs := by simp [sharpFolding]
  space c hspace := by
    have hsharp : c ≠ 'ß' := by
      rintro rfl
      exact absurd hspace (by decide)
    have hlower : c.toLower = c := by
      refine dif_neg fun hcapital => ?_
      have hlow : 65 ≤ c.val.toNat := hcapital.1
      have hhigh : c.val.toNat ≤ 90 := hcapital.2
      simp only [isSpace, Bool.or_eq_true, Bool.and_eq_true, decide_eq_true_eq] at hspace
      omega
    simp [sharpFolding, hsharp, hlower]
  word c hword := by
    by_cases hsharp : c = 'ß'
    · simp [sharpFolding, hsharp, isSpace]
    · have hlower : isSpace c.toLower = false :=
        (documented_sharpPostgres.isSpace_lower c).trans hword
      simp [sharpFolding, hsharp, hlower]

def namedParsing : Parsing :=
  { titleParsing with
    digest := fun content =>
      if content.company = some "Acme Corp" then
        "29c1ae33b0205c904aeb22c5e9e326aa87da12bd1c35e62d15826107ae34f0fc"
      else "2ae42b99d5f133c9c747c066d14b64065bfdc27d74115fa7ff1211d05ee7f932" }

/-- A listing of an employer. -/
def employerWrite (company : String) : Write :=
  ⟨{ source := "hiringcafe", externalJobId := "h1", title := "Backend Engineer", company }, 1, 9⟩

/-- The legacy row of the listing. -/
def employerRow (company contentHash : String) : GlobalJob :=
  incomingValues 9
    { NormalizedJob.bare "hiringcafe" "h1" "Backend Engineer" "backend engineer" "backend" with
      company, contentHash } 1

/-- An employer whose name is ASCII keeps its company. -/
theorem acme_agrees :
    BackfillAgrees sharpFolding namedParsing sharpPostgres undatedRuntime (fun _ => 1)
      (writes sharpFolding namedParsing [employerWrite "Acme Corp"])
      (employerRow "Acme Corp"
        "29c1ae33b0205c904aeb22c5e9e326aa87da12bd1c35e62d15826107ae34f0fc") := by
  refine ((backfill_agrees_iff documented_sharpPostgres _ (by decide)).2
    foldsCharacters_sharpFolding (fun _ _ => rfl)).mpr ?_
  rintro text (htext | htext)
  · obtain rfl := Option.some.inj htext
    have hsharp : 'ß' ∉ "Acme Corp".toList := by decide
    intro c hc
    have hne : c ≠ 'ß' := fun heq => hsharp (heq ▸ hc)
    exact Or.inr (by simp [sharpFolding, sharpPostgres, hne])
  · contradiction

/-- An employer with a sharp s gets a second company. -/
theorem weiss_splits :
    ∃ row ∈ (writes sharpFolding namedParsing [employerWrite "Weiß AG"]).rows,
      row.company = some "Weiß AG" ∧ normalized sharpPostgres "Weiß AG" = "weiß ag" ∧
        normalizeCompanyName sharpFolding "Weiß AG" = "weiss ag" ∧
        ¬ BackfillAgrees sharpFolding namedParsing sharpPostgres undatedRuntime (fun _ => 1)
          (writes sharpFolding namedParsing [employerWrite "Weiß AG"]) row := by
  refine ⟨employerRow "Weiß AG"
    "2ae42b99d5f133c9c747c066d14b64065bfdc27d74115fa7ff1211d05ee7f932", by decide, rfl,
    by decide, by decide, fun hagrees => ?_⟩
  exact absurd (hagrees.company "Weiß AG" rfl) (by decide +kernel)

end Backfill
end Catalogue
end HireAndTech

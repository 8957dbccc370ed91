import Mathlib

/-!
# Applications that read request bodies

A server hands the body of a request to an application in messages, and the application
answers.  An application of this module reads the whole body before it starts a response: it
is a machine that moves with every message, and that answers when the body is complete or when
reading has raised.

What reads the next message is a parameter with a state of its own, so that a wrapper around an
application can count what it hands over, or raise.

Main results:

- Definition {lit}`Incoming`: a body in messages.
- Definition {lit}`Application.serve`: what an application reads and answers.
- Theorem {lit}`Application.serve_forward`: without a wrapper it reads the whole body.
-/

namespace Asgi

/-! ## Requests -/

/-- The connection scope of a request. -/
structure Scope where
  type : String
  method : Option String
  path : String
  headers : List (String × String)
  requestId : Option String
deriving DecidableEq, Repr

/-- A message of the type `http.request`. -/
structure Message where
  body : Option (List UInt8)
  moreBody : Bool
deriving DecidableEq, Repr

/-- The bytes of a message; a message without a body has none. -/
def Message.content (m : Message) : List UInt8 :=
  m.body.getD []

/-- The body of a request in messages, of which the last one alone has no more after it. -/
inductive Incoming
  | last (body : Option (List UInt8))
  | more (body : Option (List UInt8)) (rest : Incoming)
deriving DecidableEq, Repr

/-- The messages in their order. -/
def Incoming.messages : Incoming → List Message
  | .last body => [⟨body, false⟩]
  | .more body rest => ⟨body, true⟩ :: rest.messages

/-- The bytes of some messages. -/
def contentOf (messages : List Message) : List UInt8 :=
  messages.flatMap Message.content

/-- The body. -/
def Incoming.content (incoming : Incoming) : List UInt8 :=
  contentOf incoming.messages

/-! ## Applications -/

/-- What comes of a request: an exception, or a response, after whose start an exception may
still follow. -/
inductive Reply (ε ρ : Type)
  | raises (error : ε)
  | responds (response : ρ) (raised : Option ε)
deriving DecidableEq, Repr

/-- The response that the client receives. -/
def Reply.response? {ε ρ : Type} : Reply ε ρ → Option ρ
  | .raises _ => none
  | .responds response _ => some response

/-- An application that reads the whole body before it starts a response. -/
structure Application (ε ρ : Type) where
  State : Type
  start : Scope → State
  onMessage : State → Message → State
  respond : State → Reply ε ρ
  onRaised : State → ε → Reply ε ρ

variable {ε ρ σ : Type}

/-- The messages of the server reach the application as they are. -/
def forward (s : Unit) (m : Message) : Except ε Message × Unit :=
  (.ok m, s)

namespace Application

variable (app : Application ε ρ)

/-- The reply to the rest of a body, and the messages that the application is given. -/
def serveFrom (receive : σ → Message → Except ε Message × σ) (state : app.State) (s : σ) :
    Incoming → Reply ε ρ × List Message
  | .last body =>
      match receive s ⟨body, false⟩ with
      | (.error e, _) => (app.onRaised state e, [])
      | (.ok m, _) => (app.respond (app.onMessage state m), [m])
  | .more body rest =>
      match receive s ⟨body, true⟩ with
      | (.error e, _) => (app.onRaised state e, [])
      | (.ok m, s') =>
          let (reply, given) := serveFrom receive (app.onMessage state m) s' rest
          (reply, m :: given)

/-- The reply to a request, and the messages that the application is given. -/
def serve (receive : σ → Message → Except ε Message × σ) (s : σ) (scope : Scope)
    (incoming : Incoming) : Reply ε ρ × List Message :=
  app.serveFrom receive (app.start scope) s incoming

/-- The state after some messages. -/
def reading (scope : Scope) (messages : List Message) : app.State :=
  messages.foldl app.onMessage (app.start scope)

/-- What is read to the end is the whole body. -/
theorem serveFrom_forward (state : app.State) (incoming : Incoming) :
    app.serveFrom forward state () incoming =
      (app.respond (incoming.messages.foldl app.onMessage state), incoming.messages) := by
  induction incoming generalizing state with
  | last body => rfl
  | more body rest ih =>
      rw [serveFrom, forward]
      dsimp only
      rw [ih]
      rfl

theorem serve_forward (scope : Scope) (incoming : Incoming) :
    app.serve forward () scope incoming =
      (app.respond (app.reading scope incoming.messages), incoming.messages) :=
  app.serveFrom_forward _ incoming

end Application

end Asgi

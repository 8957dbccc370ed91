import HireAndTech.Asgi.Application
import HireAndTech.Security.Rules

/-!
# Limits on request bodies

`ResumeRequestBodyLimitMiddleware` around an application.  It counts the bytes of a resume
upload while the application reads them, and raises an exception of its own through the
application when there are too many.  The rejection is sent when that exception comes back:
an application that answers it with a response of its own keeps the client from seeing it.

Main results:

- Definition {lit}`ResumeRequestBodyLimitMiddleware.call`: the answer to a request.
- Theorems {lit}`serveFrom_fits` and {lit}`serveFrom_overflows`: reading under the limit.
- Theorem {lit}`oversized_answered_413_iff`: when oversized bodies are rejected.
-/

namespace HireAndTech
namespace Security

open Asgi Network Text
open Catalogue (isSpace)

/-! ## Responses -/

/-- What passes through the middleware as an exception. -/
inductive Raised
  | requestBodyTooLarge
  | other (description : String)
deriving DecidableEq, Repr

/-- The content of a response: the error object of the API, or other bytes. -/
inductive Content
  | error (code message requestId : String)
  | bytes (content : List UInt8)
deriving DecidableEq, Repr

/-- An HTTP response. -/
structure Response where
  status : Nat
  content : Content
  headers : List (String × String)
deriving DecidableEq, Repr

/-- `get_request_id`. -/
def getRequestId (scope : Scope) : String :=
  scope.requestId.getD "unavailable"

/-- `application_error_handler`, for an error without headers. -/
def applicationErrorHandler (scope : Scope) (error : ApplicationError) : Response where
  status := error.status
  content := .error error.code error.message (getRequestId scope)
  headers := [("X-Request-ID", getRequestId scope)]

/-- The response is the rejection of a resume that is too large. -/
def Response.isTooLarge (response : Response) : Bool :=
  response.status = 413 &&
    match response.content with
    | .error code _ _ => code = "RESUME_FILE_TOO_LARGE"
    | .bytes _ => false

/-! ## Declared lengths -/

/-- `int(…)` of a text: spaces around it, a sign, and at most 4300 digits, between two of which
an underscore may stand. -/
def intOfText (text : List Char) : Option Int :=
  let (sign, digits) : Int × List Char :=
    match strip isSpace text with
    | '-' :: cs => (-1, cs)
    | '+' :: cs => (1, cs)
    | cs => (1, cs)
  let groups := digits.splitOn '_'
  if groups.any List.isEmpty || 4300 < groups.flatten.length then none
  else (decimal groups.flatten).map fun n => sign * n

/-- The `Content-Length` of a request, if it is a number. -/
def declaredLength (scope : Scope) : Option Int :=
  (scope.headers.lookup "content-length").bind fun text => intOfText text.toList

/-! ## The middleware -/

/-- `_MULTIPART_OVERHEAD_BYTES`. -/
def multipartOverheadBytes : Nat :=
  64 * 1024

/-- The middleware around an application. -/
structure ResumeRequestBodyLimitMiddleware where
  app : Application Raised Response
  routePrefix : String
  maximum : Nat

namespace ResumeRequestBodyLimitMiddleware

/-- `__init__`, with the two settings that it reads. -/
def init (app : Application Raised Response) (apiV1Prefix : String) (resumeMaxSizeBytes : Nat) :
    ResumeRequestBodyLimitMiddleware where
  app := app
  routePrefix := apiV1Prefix ++ "/resumes"
  maximum := resumeMaxSizeBytes + multipartOverheadBytes

variable (limiter : ResumeRequestBodyLimitMiddleware) (scope : Scope) (incoming : Incoming)

/-- `_is_limited`. -/
def isLimited : Bool :=
  scope.method = some "POST" &&
    (scope.path = limiter.routePrefix ||
      ((limiter.routePrefix ++ "/").toList.isPrefixOf scope.path.toList &&
        "/replace".toList.isSuffixOf scope.path.toList))

/-- A declared length above the maximum. -/
def declaresTooLarge : Bool :=
  (declaredLength scope).any fun length => (limiter.maximum : Int) < length

/-- `limited_receive`, with the number of bytes received before. -/
def limitedReceive (received : Nat) (message : Message) : Except Raised Message × Nat :=
  let received := received + message.content.length
  if limiter.maximum < received then (.error .requestBodyTooLarge, received)
  else (.ok message, received)

/-- `_reject`. -/
def reject (scope : Scope) : Response :=
  applicationErrorHandler scope
    ⟨"RESUME_FILE_TOO_LARGE", "The uploaded resume exceeds the allowed size.", 413⟩

/-- `__call__`: the reply to a request, and the messages that the application is given. -/
def call : Reply Raised Response × List Message :=
  if scope.type ≠ "http" || !limiter.isLimited scope then
    limiter.app.serve forward () scope incoming
  else if limiter.declaresTooLarge scope then (.responds (reject scope) none, [])
  else
    match limiter.app.serve limiter.limitedReceive 0 scope incoming with
    | (.raises .requestBodyTooLarge, given) => (.responds (reject scope) none, given)
    -- any other exception, and one after the start of a response, is raised again
    | served => served

end ResumeRequestBodyLimitMiddleware

/-! ## Reading under the limit -/

/-- The messages before the first one with which the bytes exceed a number. -/
def fitting (capacity : Nat) : List Message → List Message
  | [] => []
  | m :: ms =>
      if m.content.length ≤ capacity then m :: fitting (capacity - m.content.length) ms else []

/-- What fits is within the capacity. -/
theorem fitting_length (capacity : Nat) (messages : List Message) :
    (contentOf (fitting capacity messages)).length ≤ capacity := by
  induction messages generalizing capacity with
  | nil => exact Nat.zero_le _
  | cons m ms ih =>
      by_cases hm : m.content.length ≤ capacity
      · have hrest := ih (capacity - m.content.length)
        rw [fitting, if_pos hm, contentOf, List.flatMap_cons, List.length_append]
        rw [contentOf] at hrest
        omega
      · rw [fitting, if_neg hm]
        exact Nat.zero_le _

theorem content_last (body : Option (List UInt8)) :
    (Incoming.last body).content = (⟨body, false⟩ : Message).content := by
  rw [Incoming.content, Incoming.messages, contentOf, List.flatMap_singleton]

theorem content_more (body : Option (List UInt8)) (rest : Incoming) :
    (Incoming.more body rest).content = (⟨body, true⟩ : Message).content ++ rest.content := by
  rw [Incoming.content, Incoming.messages, contentOf, List.flatMap_cons]
  rfl

section

variable {limiter : ResumeRequestBodyLimitMiddleware} {received : Nat} {message : Message}

theorem limitedReceive_fits (h : received + message.content.length ≤ limiter.maximum) :
    limiter.limitedReceive received message = (.ok message, received + message.content.length) := by
  rw [ResumeRequestBodyLimitMiddleware.limitedReceive, if_neg (by omega)]

theorem limitedReceive_overflows (h : limiter.maximum < received + message.content.length) :
    limiter.limitedReceive received message =
      (.error .requestBodyTooLarge, received + message.content.length) := by
  rw [ResumeRequestBodyLimitMiddleware.limitedReceive, if_pos h]

/-- A body within the limit is read as without a limit. -/
theorem serveFrom_fits (state : limiter.app.State) (incoming : Incoming)
    (h : received + incoming.content.length ≤ limiter.maximum) :
    limiter.app.serveFrom limiter.limitedReceive state received incoming =
      limiter.app.serveFrom forward state () incoming := by
  induction incoming generalizing state received with
  | last body =>
      rw [content_last] at h
      rw [Application.serveFrom, limitedReceive_fits h]
      rfl
  | more body rest ih =>
      rw [content_more, List.length_append] at h
      rw [Application.serveFrom, limitedReceive_fits (by omega)]
      dsimp only
      rw [ih _ (by omega)]
      rfl

/-- Reading a body above the limit raises after the messages that fit. -/
theorem serveFrom_overflows (state : limiter.app.State) (incoming : Incoming)
    (hreceived : received ≤ limiter.maximum)
    (h : limiter.maximum < received + incoming.content.length) :
    limiter.app.serveFrom limiter.limitedReceive state received incoming =
      (limiter.app.onRaised
          ((fitting (limiter.maximum - received) incoming.messages).foldl limiter.app.onMessage
            state)
          .requestBodyTooLarge,
        fitting (limiter.maximum - received) incoming.messages) := by
  induction incoming generalizing state received with
  | last body =>
      rw [content_last] at h
      rw [Application.serveFrom, limitedReceive_overflows h, Incoming.messages, fitting,
        if_neg (by omega)]
      rfl
  | more body rest ih =>
      rw [content_more, List.length_append] at h
      by_cases hbody :
          limiter.maximum < received + (⟨body, true⟩ : Message).content.length
      · rw [Application.serveFrom, limitedReceive_overflows hbody, Incoming.messages, fitting,
          if_neg (by omega)]
        rfl
      · rw [Application.serveFrom, limitedReceive_fits (by omega)]
        dsimp only
        rw [ih _ (by omega) (by omega), Incoming.messages, fitting, if_pos (by omega),
          Nat.sub_add_eq]
        rfl

end

/-! ## Oversized bodies -/

namespace ResumeRequestBodyLimitMiddleware

variable (limiter : ResumeRequestBodyLimitMiddleware) (scope : Scope) (incoming : Incoming)

/-- The client receives the rejection. -/
def Rejected : Prop :=
  ∃ response, (limiter.call scope incoming).1.response? = some response ∧
    response.isTooLarge = true

/-- What the middleware is for: an oversized body is rejected, the application is never given
more than the maximum, and a body that is neither longer nor declared to be is read
unchanged. -/
structure Enforced : Prop where
  rejected : limiter.maximum < incoming.content.length → limiter.Rejected scope incoming
  bounded : (contentOf (limiter.call scope incoming).2).length ≤ limiter.maximum
  unchanged : incoming.content.length ≤ limiter.maximum →
    limiter.declaresTooLarge scope = false →
    (limiter.call scope incoming).2 = incoming.messages

/-- How the application answers the exception that an oversized body raises while it is
read. -/
def answerToOverflow : Reply Raised Response :=
  limiter.app.onRaised (limiter.app.reading scope (fitting limiter.maximum incoming.messages))
    .requestBodyTooLarge

/-- The application lets the exception through, or answers with the rejection itself. -/
def LetsThrough : Prop :=
  limiter.answerToOverflow scope incoming = .raises .requestBodyTooLarge ∨
    ∃ response, (limiter.answerToOverflow scope incoming).response? = some response ∧
      response.isTooLarge = true

/-- Whoever lets the exception through has the client rejected, and nobody else. -/
theorem rejected_iff_letsThrough (given : List Message)
    (hcall : limiter.call scope incoming =
      match (limiter.answerToOverflow scope incoming, given) with
      | (.raises .requestBodyTooLarge, given) => (.responds (reject scope) none, given)
      | served => served) :
    limiter.Rejected scope incoming ↔ limiter.LetsThrough scope incoming := by
  rw [Rejected, LetsThrough, hcall]
  cases hanswer : limiter.answerToOverflow scope incoming with
  | responds response raised => simp
  | raises error =>
      cases error with
      | requestBodyTooLarge =>
          constructor
          · intro _
            exact Or.inl rfl
          · intro _
            exact ⟨reject scope, rfl, rfl⟩
      | other description => simp [Reply.response?]

variable {limiter scope incoming}

/-- An application that answers alike whatever it has read. -/
theorem answerToOverflow_eq {reply : Reply Raised Response}
    (h : ∀ state, limiter.app.onRaised state .requestBodyTooLarge = reply) :
    limiter.answerToOverflow scope incoming = reply :=
  h _

/-- A declared length above the maximum is rejected before anything is read. -/
theorem call_declared (incoming : Incoming) (htype : scope.type = "http")
    (hlimited : limiter.isLimited scope = true)
    (hdeclared : limiter.declaresTooLarge scope = true) :
    limiter.call scope incoming = (.responds (reject scope) none, []) := by
  rw [call, if_neg (by simp [htype, hlimited]), if_pos hdeclared]

/-- Without such a declaration the application reads under the limit. -/
theorem call_undeclared (incoming : Incoming) (htype : scope.type = "http")
    (hlimited : limiter.isLimited scope = true)
    (hdeclared : limiter.declaresTooLarge scope = false) :
    limiter.call scope incoming =
      match limiter.app.serve limiter.limitedReceive 0 scope incoming with
      | (.raises .requestBodyTooLarge, given) => (.responds (reject scope) none, given)
      | served => served := by
  rw [call, if_neg (by simp [htype, hlimited]), if_neg (by simp [hdeclared])]

/-- What comes back does not change what the application has been given. -/
theorem call_given (incoming : Incoming) (htype : scope.type = "http")
    (hlimited : limiter.isLimited scope = true)
    (hdeclared : limiter.declaresTooLarge scope = false) :
    (limiter.call scope incoming).2 =
      (limiter.app.serve limiter.limitedReceive 0 scope incoming).2 := by
  rw [call_undeclared incoming htype hlimited hdeclared]
  split
  · rename_i h
    rw [h]
  · rfl

theorem serve_fits (h : incoming.content.length ≤ limiter.maximum) :
    limiter.app.serve limiter.limitedReceive 0 scope incoming =
      (limiter.app.respond (limiter.app.reading scope incoming.messages), incoming.messages) := by
  rw [Application.serve, serveFrom_fits _ _ (by omega)]
  exact limiter.app.serve_forward scope incoming

theorem serve_overflows (h : limiter.maximum < incoming.content.length) :
    limiter.app.serve limiter.limitedReceive 0 scope incoming =
      (limiter.answerToOverflow scope incoming, fitting limiter.maximum incoming.messages) := by
  rw [Application.serve, serveFrom_overflows _ _ (Nat.zero_le _) (by omega)]
  rfl

end ResumeRequestBodyLimitMiddleware

open ResumeRequestBodyLimitMiddleware

/-- The middleware does what it is for exactly if the body is within the maximum, a length
above the maximum is declared, or the application lets the exception through that reading an
oversized body raises. -/
theorem oversized_answered_413_iff (limiter : ResumeRequestBodyLimitMiddleware) (scope : Scope)
    (incoming : Incoming) (htype : scope.type = "http")
    (hlimited : limiter.isLimited scope = true) :
    limiter.Enforced scope incoming ↔
      incoming.content.length ≤ limiter.maximum ∨ limiter.declaresTooLarge scope = true ∨
        limiter.LetsThrough scope incoming := by
  by_cases hdeclared : limiter.declaresTooLarge scope = true
  · have hcall := call_declared incoming htype hlimited hdeclared
    have hrejected : limiter.Rejected scope incoming := ⟨reject scope, by rw [hcall]; rfl, rfl⟩
    refine iff_of_true ⟨fun _ => hrejected, ?_, ?_⟩ (Or.inr (Or.inl hdeclared))
    · rw [hcall]
      exact Nat.zero_le _
    · intro _ hundeclared
      rw [hdeclared] at hundeclared
      contradiction
  · have hundeclared : limiter.declaresTooLarge scope = false :=
      Bool.eq_false_of_not_eq_true hdeclared
    have hgiven := call_given incoming htype hlimited hundeclared
    by_cases hlength : incoming.content.length ≤ limiter.maximum
    · rw [serve_fits hlength] at hgiven
      refine iff_of_true ⟨?_, ?_, fun _ _ => hgiven⟩ (Or.inl hlength)
      · intro hlong
        exact absurd hlength (Nat.not_le.mpr hlong)
      · rw [hgiven]
        exact hlength
    · have hlong : limiter.maximum < incoming.content.length := Nat.not_le.mp hlength
      have hcall := call_undeclared incoming htype hlimited hundeclared
      rw [serve_overflows hlong] at hgiven hcall
      have hiff := rejected_iff_letsThrough limiter scope incoming _ hcall
      constructor
      · intro henforced
        exact Or.inr (Or.inr (hiff.mp (henforced.rejected hlong)))
      · rintro (hshort | hdeclares | hthrough)
        · exact absurd hshort hlength
        · exact absurd hdeclares hdeclared
        · refine ⟨fun _ => hiff.mpr hthrough, ?_, fun hshort => absurd hshort hlength⟩
          rw [hgiven]
          exact fitting_length _ _

/-- The response to a form that cannot be read. -/
def formError : Response :=
  ⟨400, .error "HTTP_ERROR" "There was an error parsing the body" "unavailable", []⟩

/-- An application that answers whatever is raised while it reads with a response of its own,
as the reading of forms does. -/
def formReader : Application Raised Response where
  State := List Message
  start _ := []
  onMessage messages m := messages ++ [m]
  respond _ := .responds ⟨201, .bytes [], []⟩ none
  onRaised _ _ := .responds formError none

/-- The middleware with the smallest limit. -/
def smallLimit (app : Application Raised Response) : ResumeRequestBodyLimitMiddleware :=
  .init app "/api/v1" 1024

/-- A resume upload without a declared length. -/
def chunkedUpload : Scope :=
  ⟨"http", some "POST", "/api/v1/resumes", [("transfer-encoding", "chunked")], none⟩

/-- A body in two messages of given lengths. -/
def twoMessages (first second : Nat) : Incoming :=
  .more (some (List.replicate first 97)) (.last (some (List.replicate second 98)))

theorem twoMessages_length (first second : Nat) :
    (twoMessages first second).content.length = first + second := by
  rw [twoMessages, content_more, content_last, List.length_append, Message.content,
    Message.content, Option.getD_some, Option.getD_some, List.length_replicate,
    List.length_replicate]

/-- An application that lets the exception through. -/
theorem oversized_answered_413_iff_propagating :
    (smallLimit { formReader with onRaised := fun _ e => .raises e }).Enforced chunkedUpload
      (twoMessages 40000 30000) :=
  (oversized_answered_413_iff (smallLimit { formReader with onRaised := fun _ e => .raises e })
    chunkedUpload (twoMessages 40000 30000) rfl (by decide)).mpr
      (Or.inr (Or.inr (Or.inl (answerToOverflow_eq fun _ => rfl))))

/-- An application that reads a form answers 400 in place of the rejection. -/
theorem oversized_answered_400 :
    (smallLimit formReader).maximum < (twoMessages 40000 30000).content.length ∧
      ¬(smallLimit formReader).Enforced chunkedUpload (twoMessages 40000 30000) := by
  have hlong : (smallLimit formReader).maximum < (twoMessages 40000 30000).content.length := by
    rw [twoMessages_length]
    decide
  have hanswer : (smallLimit formReader).answerToOverflow chunkedUpload
      (twoMessages 40000 30000) = .responds formError none :=
    answerToOverflow_eq fun _ => rfl
  refine ⟨hlong, fun henforced => ?_⟩
  have hlimited : (smallLimit formReader).isLimited chunkedUpload = true := by decide
  have hundeclared : (smallLimit formReader).declaresTooLarge chunkedUpload = false := by decide
  have hcall := call_undeclared (twoMessages 40000 30000) rfl hlimited hundeclared
  rw [serve_overflows hlong] at hcall
  have hthrough := (rejected_iff_letsThrough _ _ _ _ hcall).mp (henforced.rejected hlong)
  rw [LetsThrough, hanswer] at hthrough
  rcases hthrough with hraises | ⟨response, hresponse, htoolarge⟩
  · cases hraises
  · obtain rfl : formError = response := Option.some.inj hresponse
    exact absurd htoolarge (by decide)

end Security
end HireAndTech

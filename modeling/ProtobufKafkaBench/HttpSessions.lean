import ProtobufKafkaBench.Dialogues
import ProtobufKafkaBench.ResponseIds

/-!
What the benchmarks that talk to a registry do besides computing: they ask for a handle,
send a request and wait for what comes back, read the clock and write lines of a table.
Whether there is a handle, what comes back and what the clock says is up to the
environment.
-/
namespace ProtobufKafkaBench.HttpSessions

open ByteBuffers CommandLine Dialogues MarketEvents SchemaRegistry

inductive Op (Request Line : Type)
  | handle
  | request (request : Request)
  | clock
  | write (line : Line)

/-- A duration and what is computed from it, as the stream prints them. -/
structure Timing where
  elapsed : Bytes
  perEncode : Bytes
  rate : Bytes
  deriving Inhabited

/-- A request that fails in `curl_easy_perform` is answered with its error text. -/
abbrev Answer {Request Line : Type} : Op Request Line → Type
  | .handle => Bool
  | .request _ => Except Bytes HttpResult
  | .clock => Timing
  | .write _ => Unit

instance : Inhabited HttpResult := ⟨⟨0, []⟩⟩

inductive Failure
  | exception (error : CliError)
  | fault (fault : Fault)

abbrev Session (Request Line α : Type) := Dialogue (Op Request Line) Answer Failure α

variable {Request Line α : Type}

def raise (what : Bytes) : Session Request Line α := .throw (.exception (.runtimeError what))

/-- `curl_easy_init`, with the check of the pointer. -/
def acquire : Session Request Line Unit :=
  .perform .handle fun usable => if usable then .done () else raise (ascii "curl_easy_init failed")

/-- `curl_easy_perform`, with the check of its code. -/
def send (request : Request) : Session Request Line HttpResult :=
  .perform (.request request) fun
    | .ok result => .done result
    | .error what => raise what

def writeLine (line : Line) : Session Request Line Unit := .perform (.write line) .done

abbrev HttpEvent (Request Line : Type) := @Event (Op Request Line) Answer

abbrev handled (usable : Bool) : HttpEvent Request Line := ⟨.handle, usable⟩

abbrev replied (request : Request) (reply : Except Bytes HttpResult) : HttpEvent Request Line :=
  ⟨.request request, reply⟩

abbrev timed (timing : Timing) : HttpEvent Request Line := ⟨.clock, timing⟩

abbrev wrote (line : Line) : HttpEvent Request Line := ⟨.write line, ()⟩

def requestOf : HttpEvent Request Line → Option Request
  | ⟨.request request, _⟩ => some request
  | ⟨.handle, _⟩ | ⟨.clock, _⟩ | ⟨.write _, _⟩ => none

def lineOf : HttpEvent Request Line → Option Line
  | ⟨.write line, _⟩ => some line
  | ⟨.handle, _⟩ | ⟨.clock, _⟩ | ⟨.request _, _⟩ => none

section Views

variable {usable : Bool} {request : Request} {reply : Except Bytes HttpResult} {timing : Timing}
  {line : Line}

@[simp] theorem requestOf_handled : requestOf (handled usable : HttpEvent Request Line) = none :=
  rfl

@[simp] theorem requestOf_replied :
    requestOf (replied request reply : HttpEvent Request Line) = some request := rfl

@[simp] theorem requestOf_timed : requestOf (timed timing : HttpEvent Request Line) = none := rfl

@[simp] theorem requestOf_wrote : requestOf (wrote line : HttpEvent Request Line) = none := rfl

@[simp] theorem lineOf_handled : lineOf (handled usable : HttpEvent Request Line) = none := rfl

@[simp] theorem lineOf_replied :
    lineOf (replied request reply : HttpEvent Request Line) = none := rfl

@[simp] theorem lineOf_timed : lineOf (timed timing : HttpEvent Request Line) = none := rfl

@[simp] theorem lineOf_wrote : lineOf (wrote line : HttpEvent Request Line) = some line := rfl

end Views

/-- The requests that have been sent. -/
def requests (trace : List (HttpEvent Request Line)) : List Request :=
  trace.filterMap requestOf

/-- The lines that have been written. -/
def lines (trace : List (HttpEvent Request Line)) : List Line :=
  trace.filterMap lineOf

section Rules

variable {β : Type} {request : Request} {line : Line}

@[simp] theorem wp_raise {what : Bytes} {post : Condition Answer Failure α} :
    (raise what : Session Request Line α).wp post ↔
      post [] (.failed (.exception (.runtimeError what))) := Iff.rfl

@[simp] theorem wp_writeLine {post : Condition Answer Failure Unit} :
    (writeLine line : Session Request Line Unit).wp post ↔
      post [] .running ∧ post [⟨.write line, ()⟩] (.returned ()) :=
  and_congr Iff.rfl ⟨fun h => h (), fun h _ => h⟩

@[simp] theorem wp_acquire {post : Condition Answer Failure Unit} :
    (acquire : Session Request Line Unit).wp post ↔
      post [] .running ∧ post [⟨.handle, true⟩] (.returned ()) ∧
        post [⟨.handle, false⟩]
          (.failed (.exception (.runtimeError (ascii "curl_easy_init failed")))) := by
  refine and_congr Iff.rfl ⟨fun h => ⟨h true, h false⟩, fun h usable => ?_⟩
  cases usable with
  | true => exact h.1
  | false => exact h.2

@[simp] theorem wp_acquire_bind {f : Unit → Session Request Line α}
    {post : Condition Answer Failure α} : (acquire >>= f).wp post ↔
      post [] .running ∧
        ((f ()).wp fun rest outcome => post (⟨.handle, true⟩ :: rest) outcome) ∧
        post [⟨.handle, false⟩]
          (.failed (.exception (.runtimeError (ascii "curl_easy_init failed")))) :=
  wp_bind.trans wp_acquire

@[simp] theorem wp_send {f : HttpResult → Session Request Line α}
    {post : Condition Answer Failure α} : (send request >>= f).wp post ↔
      post [] .running ∧
        (∀ result, (f result).wp fun rest outcome =>
          post (⟨.request request, .ok result⟩ :: rest) outcome) ∧
        ∀ what, post [⟨.request request, .error what⟩]
          (.failed (.exception (.runtimeError what))) := by
  refine and_congr Iff.rfl ⟨fun h => ⟨fun result => h (.ok result), fun what => h (.error what)⟩,
    fun h reply => ?_⟩
  cases reply with
  | ok result => exact h.1 result
  | error what => exact h.2 what

/-- An attempt goes on whatever comes back. -/
@[simp] theorem wp_attempt_send {f : Except Failure HttpResult → Session Request Line α}
    {post : Condition Answer Failure α} :
    (Dialogue.attempt (send request) >>= f).wp post ↔
      post [] .running ∧ ∀ reply : Except Bytes HttpResult,
        (f (reply.mapError fun what => .exception (.runtimeError what))).wp fun rest outcome =>
          post (⟨.request request, reply⟩ :: rest) outcome := by
  refine and_congr Iff.rfl (forall_congr' fun reply => ?_)
  cases reply <;> rfl

/-- A computation that may throw. -/
theorem wp_ofExcept {result : Except Failure β} {f : β → Session Request Line α}
    {post : Condition Answer Failure α} : (Dialogue.ofExcept result >>= f).wp post ↔
      (∀ value, result = .ok value → (f value).wp post) ∧
        ∀ error, result = .error error → post [] (.failed error) := by
  cases result with
  | ok value => exact ⟨fun h => ⟨fun v hv => by cases hv; exact h, nofun⟩, fun h => h.1 value rfl⟩
  | error error =>
    exact ⟨fun h => ⟨nofun, fun e he => by cases he; exact h⟩, fun h => h.2 error rfl⟩

theorem whole_raise (what : Bytes) : (raise what : Session Request Line α).Whole := trivial

theorem whole_acquire : (acquire : Session Request Line Unit).Whole := by
  intro usable
  cases usable <;> trivial

theorem whole_send (request : Request) :
    (send request : Session Request Line HttpResult).Whole := by
  intro reply
  cases reply <;> trivial

theorem whole_writeLine (line : Line) : (writeLine line : Session Request Line Unit).Whole :=
  fun _ => trivial

end Rules

end ProtobufKafkaBench.HttpSessions

import FieldArchive.Proofs.Session.Driving

/-!
# Calls of sessions

A call is whatever may be asked of a session, whether it reads or writes: the requests
of `Session.Request`, reads, questions, and to close it.  A call may fail; what it leaves
is a `Session.Outcome`.  Calls are made one after the other on one machine
(`Session.afterCalls`), or each on the machine that it finds (`Session.afterTurns`): then
other programs may have done anything between two calls, and any step of the file system
may fail in one call and not in the next.
-/

namespace FieldArchive.Session

/-- Whatever may be asked of a session. -/
inductive Call where
  | request (request : Request)
  | readField (point : Savepoint) (name : String)
  | readRaw (point : Savepoint) (name : String)
  | savepoints
  | fieldsAt (point : Savepoint)
  | fieldNames
  | fieldInfo (name : String)
  | hasField (point : Savepoint) (name : String)
  | metainfo
  | close

/-- The operation that the refusal of a request names. -/
def Request.operation? : Request → Option Operation
  | .registerField _ => some .registerField
  | .registerSavepoint _ => some .registerSavepoint
  | .addMetainfo _ _ => some .addGlobalMetainfo
  | .addFieldMetainfo _ _ _ => some .addFieldMetainfo
  | .writeField _ _ _ _ | .write _ _ _ => some .writeField
  | .enable | .disable => none
  | .flush => some .flush
  | .stats => some .collectStats

/-- The operation that the refusal of a call names, if the call can be refused at all. -/
def Call.operation? : Call → Option Operation
  | .request asked => asked.operation?
  | .readField _ _ | .readRaw _ _ => some .readField
  | .savepoints => some .listSavepoints
  | .fieldsAt _ | .fieldNames => some .listFields
  | .fieldInfo _ => some .describeField
  | .hasField _ _ => some .lookUpField
  | .metainfo => some .readGlobalMetainfo
  | .close => none

/-- True for the call that closes. -/
def Call.isClose : Call → Bool
  | .close => true
  | _ => false

/-- The error of an answer that says that a request failed. -/
def Reply.error? : Reply → Option Error
  | .failed e => some e
  | _ => none

/-- What a call leaves. -/
structure Outcome where
  error : Option Error
  session : Session
  machine : Machine

namespace Outcome

/-- The outcome of a question, which changes nothing. -/
def ofQuestion {α : Type} (session : Session) (m : Machine) : Except Error α → Outcome
  | .ok _ => ⟨none, session, m⟩
  | .error e => ⟨some e, session, m⟩

/-- The outcome of an action. -/
def ofResult {α : Type} : EStateM.Result Error (Session × Machine) α → Outcome
  | .ok _ (session, m) => ⟨none, session, m⟩
  | .error e (session, m) => ⟨some e, session, m⟩

/-- The outcome of a request. -/
def ofReply (answer : Reply × Session × Machine) : Outcome :=
  ⟨answer.1.error?, answer.2.1, answer.2.2⟩

end Outcome

/-- Make a call. -/
def Call.perform (call : Call) (session : Session) (m : Machine) : Outcome :=
  match call with
  | .request asked => .ofReply (asked.perform (session, m))
  | .readField point name => .ofQuestion session m (session.readField m.disk point name)
  | .readRaw point name => .ofQuestion session m (session.readRaw m.disk point name)
  | .savepoints => .ofQuestion session m session.savepoints
  | .fieldsAt point => .ofQuestion session m (session.fieldsAt point)
  | .fieldNames => .ofQuestion session m session.fieldNames
  | .fieldInfo name => .ofQuestion session m (session.fieldInfo name)
  | .hasField point name => .ofQuestion session m (session.hasField point name)
  | .metainfo => .ofQuestion session m session.metainfo
  | .close => .ofResult (Session.close (session, m))

/-- The session and the machine after calls one after the other. -/
def afterCalls : List Call → Session → Machine → Session × Machine
  | [], session, m => (session, m)
  | call :: rest, session, m =>
      afterCalls rest (call.perform session m).session (call.perform session m).machine

/-- A call with the machine that it finds. -/
structure Turn where
  call : Call
  machine : Machine

/-- What a call does on the machine that it finds. -/
def Turn.outcome (x : Turn) (session : Session) : Outcome := x.call.perform session x.machine

/-- The session after some turns. -/
def afterTurns : List Turn → Session → Session
  | [], session => session
  | x :: rest, session => afterTurns rest (x.outcome session).session

variable {session : Session} {m : Machine}

theorem Reply.error?_eq_some_iff {reply : Reply} {e : Error} :
    reply.error? = some e ↔ reply = .failed e := by
  cases reply <;> simp [error?]

/-! ## Questions -/

@[simp] theorem Outcome.ofQuestion_session {α : Type} (answer : Except Error α) :
    (ofQuestion session m answer).session = session := by
  cases answer <;> rfl

@[simp] theorem Outcome.ofQuestion_machine {α : Type} (answer : Except Error α) :
    (ofQuestion session m answer).machine = m := by
  cases answer <;> rfl

theorem Outcome.ofQuestion_error_iff {α : Type} {answer : Except Error α} {e : Error} :
    (ofQuestion session m answer).error = some e ↔ answer = .error e := by
  cases answer <;> simp [ofQuestion]

/-- A question changes nothing.  What is left are requests and closing. -/
theorem Call.cases_perform (call : Call) (session : Session) (m : Machine) :
    (∃ request, call = .request request) ∨ call = .close ∨
      call.isClose = false ∧ (call.perform session m).session = session ∧
        (call.perform session m).machine = m := by
  cases call with
  | request request => exact Or.inl ⟨request, rfl⟩
  | close => exact Or.inr (Or.inl rfl)
  | _ =>
      exact Or.inr (Or.inr ⟨rfl, Outcome.ofQuestion_session _, Outcome.ofQuestion_machine _⟩)

end FieldArchive.Session

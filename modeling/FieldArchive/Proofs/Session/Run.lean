import FieldArchive.Proofs.Archive.Append
import FieldArchive.Session

/-!
# Runs of sessions

A run is a list of sessions on one archive, each of which is opened for writing,
given requests, and closed.  Requests may fail; what each was answered is kept in
a log.  `reported` are the snapshots that the log says were stored, `attempted`
are those together with the writes that failed in the file system in a session that
flushes after each: such a write may be stored all the same.  The statements about
sessions compare an archive with the log of the run that wrote it.
-/

namespace FieldArchive

/-- A description from the constructor, with any metainfo. -/
def FieldInfo.IsBuilt (f : FieldInfo) : Prop :=
  make f.name f.elementType f.byteWidth f.dims f.halos = .ok { f with metainfo := .empty }

/-- The constructor makes exactly the descriptions that pass the check. -/
theorem FieldInfo.isBuilt_iff {f : FieldInfo} : f.IsBuilt ↔ f.validate = .ok () := by
  have hSame : ({ f with metainfo := .empty } : FieldInfo).validate = f.validate := rfl
  change ({ f with metainfo := .empty } : FieldInfo).validate.map _ = _ ↔ _
  rw [hSame]
  cases f.validate with
  | ok u => simp [Except.map]
  | error e => simp [Except.map]

/-- True if documents give back the metainfo of the tables as it was set. -/
def Tables.readsBack (t : Tables) : Bool :=
  t.metainfo.readsBack && t.catalog.fields.all FieldInfo.readsBack &&
    t.offsets.savepoints.all Savepoint.readsBack

theorem Tables.readsBack_iff {t : Tables} : t.readsBack = true ↔ t.metainfo.readsBack = true ∧
    (∀ f ∈ t.catalog.fields, f.readsBack = true) ∧
      ∀ p ∈ t.offsets.savepoints, p.readsBack = true := by
  simp only [readsBack, Bool.and_eq_true, List.all_eq_true, and_assoc]

/-- Documents give back the savepoints of tables as they were, and all their metainfo if
`exact` holds. -/
structure Tables.ReadsBackAs (exact : Prop) (t : Tables) : Prop where
  savepoints : ∀ p ∈ t.offsets.savepoints, p.readsBack = true
  all : exact → t.readsBack = true

theorem Tables.readsBackAs {exact : Prop} {t : Tables} (h : t.readsBack = true) :
    t.ReadsBackAs exact :=
  ⟨(readsBack_iff.1 h).2.2, fun _ => h⟩

theorem Tables.Records.readsBack_eq {t : Tables} {s : Settings} {l : Ledger}
    (h : t.Records s l) : t.readsBack = l.readsBack := by
  have hMetainfo : t.metainfo = l.metainfo := h.metainfo
  have hFields : t.catalog.fields = l.fields := h.fields
  have hSavepoints : t.offsets.savepoints = l.savepoints := h.savepoints
  simp only [Tables.readsBack, Ledger.readsBack, hMetainfo, hFields, hSavepoints]

namespace Session

/-- What is asked of a session that is open for writing. -/
inductive Request where
  | registerField (info : FieldInfo)
  | registerSavepoint (point : Savepoint)
  | addMetainfo (key : String) (value : MetaValue)
  | addFieldMetainfo (field key : String) (value : MetaValue)
  | writeField (point : Savepoint) (name : String) (info : FieldInfo) (buffer : Buffer)
  | write (point : Savepoint) (name : String) (buffer : Buffer)
  | enable
  | disable
  | flush
  | stats

/-- What a request is answered. -/
inductive Reply where
  | done
  | registered (registration : Registration)
  | wrote (outcome : WriteOutcome)
  | counted (counts : Stats)
  | failed (error : Error)

/-- The answer to a request that changes the session alone. -/
def Reply.ofChange (change : Except Error Session) (state : Session × Machine) :
    Reply × Session × Machine :=
  match change with
  | .ok s => (.done, s, state.2)
  | .error e => (.failed e, state)

/-- The answer to a request that acts on the machine. -/
def Reply.ofAction {α : Type} (reply : α → Reply) (act : SessionAction α)
    (state : Session × Machine) : Reply × Session × Machine :=
  match act state with
  | .ok a state => (reply a, state)
  | .error e state => (.failed e, state)

/-- Answer a request. -/
def Request.perform (request : Request) (state : Session × Machine) :
    Reply × Session × Machine :=
  match request with
  | .registerField info =>
      match state.1.registerField info with
      | .ok (registration, s) => (.registered registration, s, state.2)
      | .error e => (.failed e, state)
  | .registerSavepoint point => Reply.ofChange (state.1.registerSavepoint point) state
  | .addMetainfo key value => Reply.ofChange (state.1.addMetainfo key value) state
  | .addFieldMetainfo field key value =>
      Reply.ofChange (state.1.addFieldMetainfo field key value) state
  | .writeField point name info buffer =>
      Reply.ofAction .wrote (Session.writeField point name info buffer) state
  | .write point name buffer => Reply.ofAction .wrote (Session.write point name buffer) state
  | .enable => (.done, state.1.enable, state.2)
  | .disable => (.done, state.1.disable, state.2)
  | .flush => Reply.ofAction (fun _ => .done) Session.flush state
  | .stats =>
      match state.1.stats with
      | .ok counts => (.counted counts, state)
      | .error e => (.failed e, state)

/-- Descriptions in a request come from the constructor. -/
def Request.IsBuilt : Request → Prop
  | .registerField info => info.IsBuilt
  | .writeField _ _ info _ => info.IsBuilt
  | _ => True

/-! ## Logs -/

/-- A snapshot as it is given to a session. -/
structure Snapshot where
  point : Savepoint
  field : String
  buffer : Buffer

/-- The bytes of a snapshot. -/
def Snapshot.payload (order : Endianness) (x : Snapshot) : List UInt8 :=
  Codec.payload order x.buffer

/-- The snapshot that a request is to store. -/
def Request.snapshot? : Request → Option Snapshot
  | .writeField point name _ buffer => some ⟨point, name, buffer⟩
  | .write point name buffer => some ⟨point, name, buffer⟩
  | _ => none

/-- The record that an answer gives. -/
def Reply.record? : Reply → Option OffsetRecord
  | .wrote outcome => outcome.record?
  | _ => none

/-- True if equal bytes were stored before. -/
def Reply.isDeduplicated : Reply → Bool
  | .wrote (.deduplicated _) => true
  | _ => false

/-- True for a failure of the file system. -/
def Reply.isIo : Reply → Bool
  | .failed e => e.isIo
  | _ => false

/-- A request with its answer, in a session of some durability. -/
structure Event where
  durability : Durability
  request : Request
  reply : Reply

/-- The snapshot that was stored, as far as the answer tells. -/
def Event.reported? (e : Event) : Option Snapshot :=
  if e.reply.record?.isSome then e.request.snapshot? else none

/-- The snapshot that was stored, or that may have been before a flush failed. -/
def Event.attempted? (e : Event) : Option Snapshot :=
  if e.reply.record?.isSome || (e.reply.isIo && e.durability = .always) then e.request.snapshot?
  else none

/-- The snapshots that were stored according to a log. -/
def reported (log : List Event) : List Snapshot := log.filterMap Event.reported?

/-- The snapshots that may have been stored. -/
def attempted (log : List Event) : List Snapshot := log.filterMap Event.attempted?

/-- The bytes that were stored according to a log, in order. -/
def payloads (order : Endianness) (log : List Event) : List (List UInt8) :=
  (reported log).map fun x => x.payload order

/-- No snapshot failed to be stored in the file system. -/
def IsIntact (log : List Event) : Prop :=
  ∀ e ∈ log, e.reply.isIo = true → e.request.snapshot? = none

/-! ## Runs -/

/-- Answer requests one after the other. -/
def serve : List Request → Session × Machine → List Event × Session × Machine
  | [], state => ([], state)
  | request :: rest, state =>
      let (reply, next) := request.perform state
      let (events, last) := serve rest next
      (⟨state.1.durability, request, reply⟩ :: events, last)

/-- One session of a run: what it is opened with, and its requests. -/
structure Visit where
  config : Config
  reference : Option String
  requests : List Request

/-- What a session leaves that was closed. -/
structure Visited where
  events : List Event
  session : Session
  machine : Machine

/-- Open a session for writing, answer its requests and close it; `none` if it
cannot be opened or closing fails. -/
def Visit.run (directory stem : String) (visit : Visit) (m : Machine) : Option Visited :=
  match openWith directory stem .write visit.reference visit.config m with
  | .error _ _ => none
  | .ok s m =>
      let (events, state) := serve visit.requests (s, m)
      match close state with
      | .error _ _ => none
      | .ok _ (s, m) => some ⟨events, s, m⟩

/-- Run sessions one after the other. -/
def runAll (directory stem : String) : List Visit → Machine → Option (List Visited)
  | [], _ => some []
  | visit :: rest, m => do
      let first ← visit.run directory stem m
      let others ← runAll directory stem rest first.machine
      return first :: others

/-- The log of a run. -/
def logOf (visited : List Visited) : List Event := visited.flatMap Visited.events

/-- The machine after a run that began on `m`. -/
def machineAfter (m : Machine) (visited : List Visited) : Machine :=
  visited.foldl (fun _ v => v.machine) m

/-! ## Properties of logs -/

theorem reported_append (log log' : List Event) :
    reported (log ++ log') = reported log ++ reported log' := List.filterMap_append

theorem attempted_append (log log' : List Event) :
    attempted (log ++ log') = attempted log ++ attempted log' := List.filterMap_append

theorem payloads_append (order : Endianness) (log log' : List Event) :
    payloads order (log ++ log') = payloads order log ++ payloads order log' := by
  rw [payloads, reported_append, List.map_append, payloads, payloads]

theorem isIntact_append {log log' : List Event} :
    IsIntact (log ++ log') ↔ IsIntact log ∧ IsIntact log' := List.forall_mem_append

theorem isIntact_singleton {e : Event} :
    IsIntact [e] ↔ (e.reply.isIo = true → e.request.snapshot? = none) :=
  List.forall_mem_singleton

/-- Without failures of the file system, what was attempted was stored. -/
theorem attempted_eq_reported {log : List Event} (h : IsIntact log) :
    attempted log = reported log := by
  refine List.filterMap_congr fun e he => ?_
  cases hIo : e.reply.isIo with
  | false => simp [Event.attempted?, Event.reported?, hIo]
  | true => simp [Event.attempted?, Event.reported?, h e he hIo]

end Session
end FieldArchive

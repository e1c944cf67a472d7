import FieldArchive.Proofs.Archive.Commands

/-!
# Requests and the ledgers that answer them

Requests to an archive that is open for writing, with everything that they return.
The ledger of an archive determines the answer to a request and the ledger after it
(`Request.respond`), which is said in terms of the lists of the ledger alone and
without a file system.  `Request.Advances` lists what a request can do to a ledger;
from it follows what requests keep.
-/

namespace FieldArchive

namespace Archive

/-! ## Requests and answers -/

/-- What is asked of an archive that is open for writing. -/
inductive Request where
  | registerField (info : FieldInfo)
  | registerSavepoint (point : Savepoint)
  | addMetainfo (key : String) (value : MetaValue)
  | addFieldMetainfo (field key : String) (value : MetaValue)
  | append (blob : Blob)
  | flush

/-- What a request returns if it succeeds. -/
inductive Reply where
  | done
  | registered (registration : Registration)
  | appended (appended : Appended)
  deriving DecidableEq

/-- What a request returns, and what it leaves. -/
structure Answer where
  reply : Except Error Reply
  archive : Archive
  machine : Machine

namespace Answer

/-- The answer to a request that changes the tables alone. -/
def ofTables (a : Archive) (m : Machine) : Except Error (Reply × Archive) → Answer
  | .ok (reply, a') => ⟨.ok reply, a', m⟩
  | .error e => ⟨.error e, a, m⟩

/-- The answer to a request that acts on the machine. -/
def ofResult {α : Type} (reply : α → Reply) :
    EStateM.Result Error (Archive × Machine) α → Answer
  | .ok r (a, m) => ⟨.ok (reply r), a, m⟩
  | .error e (a, m) => ⟨.error e, a, m⟩

end Answer

namespace Request

/-- Answer a request. -/
def perform (request : Request) (a : Archive) (m : Machine) : Answer :=
  match request with
  | .registerField info =>
      .ofTables a m ((a.registerField info).map fun done => (.registered done.1, done.2))
  | .registerSavepoint point =>
      .ofTables a m ((a.registerSavepoint point).map fun a' => (.done, a'))
  | .addMetainfo key value => .ofTables a m ((a.addMetainfo key value).map fun a' => (.done, a'))
  | .addFieldMetainfo field key value =>
      .ofTables a m ((a.addFieldMetainfo field key value).map fun a' => (.done, a'))
  | .append blob => .ofResult .appended (Archive.append blob.point blob.field blob.bytes (a, m))
  | .flush => .ofResult (fun _ => .done) (Archive.flush (a, m))

/-- Descriptions in a request come from the constructor. -/
def IsBuilt : Request → Prop
  | .registerField info => info.IsBuilt
  | _ => True

/-- Documents give back the metainfo in a request, as far as they can hold it. -/
def IsKept : Request → Prop
  | .registerField info => info.metainfo.firstNonFinite? = none → info.readsBack = true
  | .registerSavepoint point => point.metainfo.firstNonFinite? = none → point.readsBack = true
  | .addMetainfo _ value => value.isFinite = true → value.readsBack = true
  | .addFieldMetainfo _ _ value => value.isFinite = true → value.readsBack = true
  | .append blob => blob.point.metainfo.firstNonFinite? = none → blob.point.readsBack = true
  | .flush => True

/-- The bytes that a request is to store. -/
def payload? : Request → Option (List UInt8)
  | .append blob => some blob.bytes
  | _ => none

end Request
end Archive

/-! ## Responses of a ledger -/

/-- True if a snapshot is stored under a key. -/
def Ledger.hasKey (live : Ledger) (point : Savepoint) (field : String) : Bool :=
  live.writes.any fun w => decide ((w.savepoint, w.field) = (live.numberOf point, field))

namespace Archive

/-- What the ledger of an archive determines: the reply to a request, and the ledger
after it.  An error leaves the ledger as it is. -/
def Request.respond (s : Settings) (live : Ledger) : Request → Except Error (Reply × Ledger)
  | .registerField info => do
      checkFinite (.field info.name) info.metainfo
      match live.fields.find? fun f => f.name == info.name with
      | some registered =>
          registered.checkCompatible info
          return (.registered .confirmed, live)
      | none => return (.registered .inserted, live.addField info)
  | .registerSavepoint point => do
      checkFinite (.savepoint point) point.metainfo
      return (.done, live.register point)
  | .addMetainfo key value => do
      checkFiniteValue .archive key value
      return (.done, live.setMetainfo key value)
  | .addFieldMetainfo field key value => do
      checkFiniteValue (.field field) key value
      match live.fields.findIdx? fun f => f.name == field with
      | some i => return (.done, live.setFieldMetainfo i key value)
      | none => throw (.invalidArgument (.unregisteredField field))
  | .append blob => do
      checkFinite (.savepoint blob.point) blob.point.metainfo
      match live.fields.find? fun f => f.name == blob.field with
      | none => throw (.fieldNotFound blob.point blob.field)
      | some info =>
          if blob.bytes.length ≠ info.byteSize then
            throw (.sizeMismatch blob.field info.byteSize blob.bytes.length)
          else if live.hasKey blob.point blob.field then
            throw (.duplicateField blob.point blob.field)
          else
            let next := stored live blob.point blob.field blob.bytes
            return (.appended ⟨next.recordOf s.checksum blob.bytes,
              live.payloads.contains blob.bytes⟩, next)
  | .flush => return (.done, live)

/-- The ledger after a request. -/
def Request.next (s : Settings) (live : Ledger) (request : Request) : Ledger :=
  match request.respond s live with
  | .ok (_, next) => next
  | .error _ => live

variable {s : Settings} {live : Ledger}

/-! ## What requests do to a ledger -/

namespace Request

/-- What a request that succeeds does to a ledger. -/
inductive Advances (live : Ledger) : Request → Ledger → Prop where
  | confirmed (info : FieldInfo) : Advances live (.registerField info) live
  | inserted {info : FieldInfo} (finite : info.metainfo.firstNonFinite? = none) :
      Advances live (.registerField info) (live.addField info)
  | registerSavepoint {point : Savepoint} (finite : point.metainfo.firstNonFinite? = none) :
      Advances live (.registerSavepoint point) (live.register point)
  | addMetainfo (key : String) {value : MetaValue} (finite : value.isFinite = true) :
      Advances live (.addMetainfo key value) (live.setMetainfo key value)
  | addFieldMetainfo (field key : String) {value : MetaValue} (finite : value.isFinite = true)
      (i : Nat) : Advances live (.addFieldMetainfo field key value)
        (live.setFieldMetainfo i key value)
  | append {blob : Blob} (finite : blob.point.metainfo.firstNonFinite? = none) :
      Advances live (.append blob) (stored live blob.point blob.field blob.bytes)
  | flush : Advances live .flush live

theorem advances_of_respond {request : Request} {reply : Reply} {next : Ledger}
    (h : request.respond s live = .ok (reply, next)) : Advances live request next := by
  -- what a request asks of its values is what the ledger has to know of them
  cases request with
  | registerField info =>
      obtain ⟨_, hFinite, hRest⟩ := except_bind_eq_ok_iff.1 h
      split at hRest
      · obtain ⟨_, -, hDone⟩ := except_bind_eq_ok_iff.1 hRest
        cases hDone
        exact .confirmed info
      · cases hRest
        exact .inserted (checkFinite_eq_ok_iff.1 hFinite)
  | registerSavepoint point =>
      obtain ⟨_, hFinite, hDone⟩ := except_bind_eq_ok_iff.1 h
      cases hDone
      exact .registerSavepoint (checkFinite_eq_ok_iff.1 hFinite)
  | addMetainfo key value =>
      obtain ⟨_, hFinite, hDone⟩ := except_bind_eq_ok_iff.1 h
      cases hDone
      exact .addMetainfo key (checkFiniteValue_eq_ok_iff.1 hFinite)
  | addFieldMetainfo field key value =>
      obtain ⟨_, hFinite, hRest⟩ := except_bind_eq_ok_iff.1 h
      split at hRest
      · cases hRest
        exact .addFieldMetainfo field key (checkFiniteValue_eq_ok_iff.1 hFinite) _
      · cases hRest
  | append blob =>
      obtain ⟨_, hFinite, hRest⟩ := except_bind_eq_ok_iff.1 h
      split at hRest
      · cases hRest
      · split at hRest
        · cases hRest
        · split at hRest
          · cases hRest
          · cases hRest
            exact .append (checkFinite_eq_ok_iff.1 hFinite)
  | flush =>
      cases h
      exact .flush

/-- The ledger after a request is the one before it, or has advanced. -/
theorem next_cases (s : Settings) (live : Ledger) (request : Request) :
    request.next s live = live ∨ Advances live request (request.next s live) := by
  unfold next
  cases hRespond : request.respond s live with
  | error e => exact Or.inl rfl
  | ok result => exact Or.inr (advances_of_respond hRespond)

/-- Documents give back the ledger after a request if they do before it. -/
theorem readsBack_next (hReads : live.readsBack = true) {request : Request}
    (hKept : request.IsKept) : (request.next s live).readsBack = true := by
  rcases next_cases s live request with hSame | hAdvances
  · rw [hSame]
    exact hReads
  generalize request.next s live = next at hAdvances
  obtain ⟨hMetainfo, hFields, hSavepoints⟩ := Ledger.readsBack_iff.1 hReads
  -- Registering and storing add a savepoint at most.
  have hRegister : ∀ point : Savepoint, point.readsBack = true →
      ∀ p ∈ (live.register point).savepoints, p.readsBack = true := by
    intro point hPoint p hp
    rcases live.register_cases point with ⟨hSame, -⟩ | ⟨hNew, -⟩
    · exact hSavepoints p (hSame ▸ hp)
    · rw [hNew] at hp
      rcases List.mem_append.1 hp with hOld | hLast
      · exact hSavepoints p hOld
      · rw [List.mem_singleton.1 hLast]
        exact hPoint
  refine Ledger.readsBack_iff.2 ?_
  cases hAdvances with
  | confirmed info => exact ⟨hMetainfo, hFields, hSavepoints⟩
  | inserted hFinite =>
      refine ⟨hMetainfo, ?_, hSavepoints⟩
      intro f hf
      rcases List.mem_append.1 hf with hOld | hNew
      · exact hFields f hOld
      · rw [List.mem_singleton.1 hNew]
        exact hKept hFinite
  | registerSavepoint hFinite =>
      refine ⟨?_, ?_, hRegister _ (hKept hFinite)⟩
      · rw [Ledger.register_metainfo]
        exact hMetainfo
      · rw [Ledger.register_fields]
        exact hFields
  | addMetainfo key hFinite =>
      exact ⟨Metainfo.readsBack_set hMetainfo key (hKept hFinite), hFields, hSavepoints⟩
  | addFieldMetainfo field key hFinite i =>
      refine ⟨hMetainfo, ?_, hSavepoints⟩
      intro f hf
      obtain ⟨n, hn⟩ := List.getElem?_of_mem hf
      simp only [Ledger.setFieldMetainfo, List.getElem?_modify, Option.map_eq_map] at hn
      obtain ⟨f', hf', rfl⟩ := Option.map_eq_some_iff.1 hn
      have hOld := hFields f' (List.mem_of_getElem? hf')
      split
      · exact Metainfo.readsBack_set hOld key (hKept hFinite)
      · exact hOld
  | append hFinite =>
      refine ⟨?_, ?_, hRegister _ (hKept hFinite)⟩
      · rw [stored, Ledger.addWrite, Ledger.register_metainfo]
        exact hMetainfo
      · rw [stored, Ledger.addWrite, Ledger.register_fields]
        exact hFields
  | flush => exact ⟨hMetainfo, hFields, hSavepoints⟩

/-- A request adds its own bytes at most. -/
theorem payloads_next {request : Request} {p : List UInt8}
    (h : p ∈ (request.next s live).payloads) : p ∈ live.payloads ∨ request.payload? = some p := by
  rcases next_cases s live request with hSame | hAdvances
  · rw [hSame] at h
    exact Or.inl h
  generalize request.next s live = next at h hAdvances
  cases hAdvances with
  | registerSavepoint hFinite =>
      rw [Ledger.register_payloads] at h
      exact Or.inl h
  | @append blob hFinite =>
      rw [stored_payloads] at h
      rcases List.mem_append.1 h with hOld | hNew
      · exact Or.inl hOld
      · exact Or.inr (congrArg some (List.mem_singleton.1 hNew).symm)
  | _ => exact Or.inl h

/-- The number of bytes that a request is to store. -/
def size (request : Request) : Nat := (request.payload?.map List.length).getD 0

/-- A request adds its bytes at most. -/
theorem content_next_le (s : Settings) (live : Ledger) (request : Request) :
    (request.next s live).content.length ≤ live.content.length + request.size := by
  rcases next_cases s live request with hSame | hAdvances
  · rw [hSame]
    omega
  generalize request.next s live = next at hAdvances
  cases hAdvances with
  | registerSavepoint hFinite =>
      rw [Ledger.register_content]
      omega
  | @append blob hFinite =>
      rw [Ledger.content, stored_payloads]
      by_cases hMem : blob.bytes ∈ live.payloads
      · rw [Packing.content_append_of_mem hMem]
        exact Nat.le_add_right _ _
      · rw [Packing.content_append_of_not_mem hMem, List.length_append]
        exact Nat.le_refl _
  | _ => exact Nat.le_add_right _ _

/-- Requests to a ledger that documents give back, and whose bytes the digest tells
apart. -/
structure Readable (s : Settings) (live : Ledger) (requests : List Request) : Prop where
  built : ∀ r ∈ requests, r.IsBuilt
  kept : ∀ r ∈ requests, r.IsKept
  readsBack : live.readsBack = true
  injective : Set.InjOn (Checksum.compute s.checksum)
    {p | p ∈ live.payloads ∨ ∃ r ∈ requests, r.payload? = some p}

variable {request : Request} {rest : List Request}

theorem Readable.injective_head (h : Readable s live (request :: rest)) (bytes : List UInt8)
    (hBytes : request.payload? = some bytes) :
    Set.InjOn (Checksum.compute s.checksum) {p | p ∈ live.payloads ++ [bytes]} := by
  refine h.injective.mono fun p hp => ?_
  rcases List.mem_append.1 hp with hOld | hLast
  · exact Or.inl hOld
  · exact Or.inr ⟨request, List.mem_cons_self, List.mem_singleton.1 hLast ▸ hBytes⟩

/-- The first request leaves the others readable. -/
theorem Readable.tail (h : Readable s live (request :: rest)) :
    Readable s (request.next s live) rest where
  built r hr := h.built r (List.mem_cons_of_mem _ hr)
  kept r hr := h.kept r (List.mem_cons_of_mem _ hr)
  readsBack := readsBack_next h.readsBack (h.kept request List.mem_cons_self)
  injective := by
    refine h.injective.mono fun p hp => ?_
    rcases hp with hLedger | ⟨r, hr, hBytes⟩
    · rcases payloads_next hLedger with hOld | hBytes
      · exact Or.inl hOld
      · exact Or.inr ⟨request, List.mem_cons_self, hBytes⟩
    · exact Or.inr ⟨r, List.mem_cons_of_mem _ hr, hBytes⟩

/-- The replies of a ledger to requests, one after the other. -/
def replies (s : Settings) : Ledger → List Request → List (Except Error Reply)
  | _, [] => []
  | live, request :: rest =>
      (request.respond s live).map Prod.fst :: replies s (request.next s live) rest

/-- The ledger after requests, one after the other. -/
def last (s : Settings) : Ledger → List Request → Ledger
  | live, [] => live
  | live, request :: rest => last s (request.next s live) rest

end Request

/-! ## Errors -/

theorem isIo_of_checkFinite {owner : Owner} {metainfo : Metainfo} {e : Error}
    (h : checkFinite owner metainfo = .error e) : e.isIo = false := by
  unfold checkFinite at h
  split at h
  · cases h
    rfl
  · cases h

theorem isIo_of_checkFiniteValue {owner : Owner} {key : String} {value : MetaValue} {e : Error}
    (h : checkFiniteValue owner key value = .error e) : e.isIo = false := by
  unfold checkFiniteValue at h
  split at h
  · cases h
  · cases h
    rfl

/-- A ledger knows no failures of the file system. -/
theorem Request.isIo_of_respond {request : Request} {e : Error}
    (h : request.respond s live = .error e) : e.isIo = false := by
  -- the errors of a ledger are those of checks
  cases request with
  | registerField info =>
      rcases except_bind_eq_error_iff.1 h with hFinite | ⟨_, -, hRest⟩
      · exact isIo_of_checkFinite hFinite
      · split at hRest
        · rcases except_bind_eq_error_iff.1 hRest with hCheck | ⟨_, -, hDone⟩
          · unfold FieldInfo.checkCompatible at hCheck
            split at hCheck
            · cases hCheck
            · cases hCheck
              rfl
          · cases hDone
        · cases hRest
  | registerSavepoint point =>
      rcases except_bind_eq_error_iff.1 h with hFinite | ⟨_, -, hDone⟩
      · exact isIo_of_checkFinite hFinite
      · cases hDone
  | addMetainfo key value =>
      rcases except_bind_eq_error_iff.1 h with hFinite | ⟨_, -, hDone⟩
      · exact isIo_of_checkFiniteValue hFinite
      · cases hDone
  | addFieldMetainfo field key value =>
      rcases except_bind_eq_error_iff.1 h with hFinite | ⟨_, -, hRest⟩
      · exact isIo_of_checkFiniteValue hFinite
      · split at hRest
        · cases hRest
        · cases hRest
          rfl
  | append blob =>
      rcases except_bind_eq_error_iff.1 h with hFinite | ⟨_, -, hRest⟩
      · exact isIo_of_checkFinite hFinite
      · split at hRest
        · cases hRest
          rfl
        · split at hRest
          · cases hRest
            rfl
          · split at hRest
            · cases hRest
              rfl
            · cases hRest
  | flush => cases h

end Archive
end FieldArchive

import FieldArchive.Proofs.Archive.Serving
import FieldArchive.Proofs.Session.Visiting

/-!
# Sessions that answer as their ledgers do

As long as the file system does not fail, the answers of a session are determined by
its ledger and by whether it is enabled, which is its view (`Session.View`).  What the
view determines is said without an archive (`Session.Request.respond`);
`Session.ServesView.perform` is the step for a request and `Session.ServesView.serve` the run.

Sessions that are opened one after the other complete then, each with the answers that
the ledger determines which the one before it has left (`Session.exists_runAll`).  What
has to be assumed of the machine is that files have room: for the bytes of every
snapshot, and for the text of every document that is written on the way.
-/

namespace FieldArchive

open Archive (Writable)

/-- The bytes of a snapshot of a known field, or nothing if the session is disabled. -/
def Ledger.prepared (s : Settings) (enabled : Bool) (live : Ledger) (x : Session.Snapshot) :
    Except Error (Option (List UInt8)) :=
  match live.fields.find? fun f => f.name == x.field with
  | none => .error (.fieldNotFound x.point x.field)
  | some info =>
      if enabled then ((Codec.ofSettings s).encode info x.buffer).map some else .ok none

theorem Ledger.payload_of_prepared {live : Ledger} {s : Settings} {enabled : Bool}
    {x : Session.Snapshot} {bytes : List UInt8}
    (h : live.prepared s enabled x = .ok (some bytes)) : bytes = x.payload s.endianness := by
  unfold prepared at h
  split at h
  · cases h
  · next info hFind =>
      split at h
      · cases hEncode : (Codec.ofSettings s).encode info x.buffer with
        | error e =>
            rw [hEncode] at h
            cases h
        | ok encoded =>
            rw [hEncode] at h
            cases h
            exact (Codec.encode_ok hEncode).2
      · cases h

namespace Session

/-! ## What a view determines -/

/-- What determines the answers of a session that is open for writing. -/
structure View where
  enabled : Bool
  ledger : Ledger

/-- The answer of a session whose archive answers so. -/
def Reply.ofArchive : Except Error Archive.Reply → Reply
  | .ok .done => .done
  | .ok (.registered registration) => .registered registration
  | .ok (.appended appended) => .wrote (.ofAppended appended)
  | .error e => .failed e

/-- The answer to a request that goes to the archive, and the view after it. -/
def View.ask (s : Settings) (view : View) (request : Archive.Request) : Reply × View :=
  (.ofArchive ((request.respond s view.ledger).map Prod.fst),
    { view with ledger := request.next s view.ledger })

/-- The request to the archive that a request is, unless it is a write or concerns the
session alone. -/
def Request.archive? : Request → Option Archive.Request
  | .registerField info => some (.registerField info)
  | .registerSavepoint point => some (.registerSavepoint point)
  | .addMetainfo key value => some (.addMetainfo key value)
  | .addFieldMetainfo field key value => some (.addFieldMetainfo field key value)
  | .flush => some .flush
  | _ => none

/-- The answer to a write of a field that is registered on its first use. -/
def View.writeField (s : Settings) (view : View) (point : Savepoint) (name : String)
    (info : FieldInfo) (buffer : Buffer) : Reply × View :=
  if name ≠ info.name then (.failed (.invalidArgument (.otherName name info.name)), view)
  else if view.enabled then
    match (Codec.ofSettings s).encode info buffer with
    | .error e => (.failed e, view)
    | .ok bytes =>
        match (Archive.Request.registerField info).respond s view.ledger with
        | .error e => (.failed e, view)
        | .ok (_, next) => ask s { view with ledger := next } (.append ⟨point, name, bytes⟩)
  else (.wrote .skipped, view)

/-- The answer to a write of a registered field. -/
def View.write (s : Settings) (view : View) (x : Snapshot) : Reply × View :=
  match view.ledger.prepared s view.enabled x with
  | .error e => (.failed e, view)
  | .ok none => (.wrote .skipped, view)
  | .ok (some bytes) => view.ask s (.append ⟨x.point, x.field, bytes⟩)

/-- What a view determines: the answer to a request, and the view after it. -/
def Request.respond (s : Settings) (view : View) : Request → Reply × View
  | .writeField point name info buffer => view.writeField s point name info buffer
  | .write point name buffer => view.write s ⟨point, name, buffer⟩
  | .enable => (.done, { view with enabled := true })
  | .disable => (.done, { view with enabled := false })
  | .stats => (.counted view.ledger.counts, view)
  | .registerField info => view.ask s (.registerField info)
  | .registerSavepoint point => view.ask s (.registerSavepoint point)
  | .addMetainfo key value => view.ask s (.addMetainfo key value)
  | .addFieldMetainfo field key value => view.ask s (.addFieldMetainfo field key value)
  | .flush => view.ask s .flush

/-- The answers to requests that are given one after the other. -/
def View.answers (s : Settings) (durability : Durability) : View → List Request → List Event
  | _, [] => []
  | view, request :: rest =>
      ⟨durability, request, (request.respond s view).1⟩ ::
        answers s durability (request.respond s view).2 rest

/-- The view after requests that are given one after the other. -/
def View.after (s : Settings) : View → List Request → View
  | view, [] => view
  | view, request :: rest => after s (request.respond s view).2 rest

/-- The ledgers before requests and among them. -/
def View.ledgers (s : Settings) : View → List Request → List Ledger
  | _, [] => []
  | view, request :: rest => view.ledger :: ledgers s (request.respond s view).2 rest

/-- The ledgers whose documents may be written when requests are given and the session is
closed: those that are flushed, and all of them if every write is durable. -/
def View.flushed (s : Settings) (durability : Durability) : View → List Request → List Ledger
  | view, [] => [view.ledger]
  | view, request :: rest =>
      match durability, request with
      | .standard, .flush => view.ledger :: flushed s .standard (request.respond s view).2 rest
      | .standard, _ => flushed s .standard (request.respond s view).2 rest
      | .always, _ => view.ledger :: flushed s .always (request.respond s view).2 rest

/-- The bytes that a request is to store. -/
def Request.payload? (s : Settings) (request : Request) : Option (List UInt8) :=
  request.snapshot?.map (Snapshot.payload s.endianness)

variable {s : Settings} {durability : Durability} {view : View} {request : Request}
  {requests rest : List Request}

theorem View.flushed_tail_subset : flushed s durability (request.respond s view).2 rest ⊆
    view.flushed s durability (request :: rest) := by
  cases durability with
  | always => exact List.subset_cons_self _ _
  | standard =>
      cases request with
      | flush => exact List.subset_cons_self _ _
      | _ => exact fun _ h => h

theorem View.mem_flushed_of_flush :
    view.ledger ∈ view.flushed s durability (Request.flush :: rest) := by
  cases durability <;> exact List.mem_cons_self

theorem View.mem_flushed_of_always : view.ledger ∈ view.flushed s .always requests := by
  cases requests <;> exact List.mem_cons_self

theorem View.after_mem_flushed :
    (view.after s requests).ledger ∈ view.flushed s durability requests := by
  induction requests generalizing view with
  | nil => exact List.mem_cons_self
  | cons request rest ih => exact flushed_tail_subset ih

/-- A request adds its own bytes at most. -/
theorem Request.payloads_respond {p : List UInt8}
    (h : p ∈ (request.respond s view).2.ledger.payloads) :
    p ∈ view.ledger.payloads ∨ request.payload? s = some p := by
  -- only writes carry bytes
  cases request with
  | writeField point name info buffer =>
      change p ∈ (view.writeField s point name info buffer).2.ledger.payloads at h
      unfold View.writeField at h
      split at h
      · exact Or.inl h
      · split at h
        · split at h
          · exact Or.inl h
          · next bytes hEncode =>
              split at h
              · exact Or.inl h
              · next next hRespond =>
                  have hNext : (Archive.Request.registerField info).next s view.ledger = next := by
                    simp only [Archive.Request.next, hRespond]
                  rcases Archive.Request.payloads_next h with hOld | hOwn
                  · rw [← hNext] at hOld
                    exact Or.inl ((Archive.Request.payloads_next hOld).resolve_right fun hNone => by
                      cases hNone)
                  · cases hOwn
                    exact Or.inr (congrArg some (Codec.encode_ok hEncode).2.symm)
        · exact Or.inl h
  | write point name buffer =>
      change p ∈ (view.write s ⟨point, name, buffer⟩).2.ledger.payloads at h
      unfold View.write at h
      split at h
      · exact Or.inl h
      · exact Or.inl h
      · next bytes hPrepared =>
          rcases Archive.Request.payloads_next h with hOld | hOwn
          · exact Or.inl hOld
          · cases hOwn
            exact Or.inr (congrArg some (Ledger.payload_of_prepared hPrepared).symm)
  | enable => exact Or.inl h
  | disable => exact Or.inl h
  | stats => exact Or.inl h
  | _ =>
      exact Or.inl ((Archive.Request.payloads_next h).resolve_right fun hNone => by cases hNone)

theorem isIo_of_encode {codec : Codec} {info : FieldInfo} {buffer : Buffer} {e : Error}
    (h : codec.encode info buffer = .error e) : e.isIo = false := by
  rcases except_bind_eq_error_iff.1 h with hType | ⟨_, -, hRest⟩
  · unfold Codec.checkType at hType
    dsimp only at hType
    split at hType
    · cases hType
      rfl
    · split at hType <;> cases hType
      rfl
  · split at hRest
    · cases hRest
      rfl
    · dsimp only at hRest
      split at hRest
      · cases hRest
        rfl
      · cases hRest

theorem View.isIo_ask (s : Settings) (view : View) (asked : Archive.Request) :
    (view.ask s asked).1.isIo = false := by
  unfold ask
  cases hRespond : asked.respond s view.ledger with
  | error e => exact Archive.Request.isIo_of_respond hRespond
  | ok done =>
      obtain ⟨reply, next⟩ := done
      cases reply <;> rfl

/-- No answer of a view is a failure of the file system. -/
theorem Request.isIo_respond (s : Settings) (view : View) (request : Request) :
    (request.respond s view).1.isIo = false := by
  cases request with
  | writeField point name info buffer =>
      change (view.writeField s point name info buffer).1.isIo = false
      unfold View.writeField
      split
      · rfl
      · split
        · split
          · next hEncode => exact isIo_of_encode hEncode
          · split
            · next hRespond => exact Archive.Request.isIo_of_respond hRespond
            · exact View.isIo_ask s _ _
        · rfl
  | write point name buffer =>
      change (view.write s ⟨point, name, buffer⟩).1.isIo = false
      unfold View.write
      split
      · next e hPrepared =>
          unfold Ledger.prepared at hPrepared
          split at hPrepared
          · cases hPrepared
            rfl
          · next info hFind =>
              split at hPrepared
              · cases hEncode : (Codec.ofSettings s).encode info buffer with
                | ok bytes =>
                    rw [hEncode] at hPrepared
                    cases hPrepared
                | error e' =>
                    rw [hEncode] at hPrepared
                    cases hPrepared
                    exact isIo_of_encode hEncode
              · cases hPrepared
      · rfl
      · exact View.isIo_ask s view _
  | enable => rfl
  | disable => rfl
  | stats => rfl
  | _ => exact View.isIo_ask s view _

theorem View.isIntact_answers (durability : Durability) :
    IsIntact (view.answers s durability requests) := by
  induction requests generalizing view with
  | nil => exact fun e he => by cases he
  | cons request rest ih =>
      refine List.forall_mem_cons.2 ⟨fun hIo => ?_, ih⟩
      rw [Request.isIo_respond] at hIo
      cases hIo

/-! ## One request -/

variable {l : Layout} {dir : NodeId} {id : ArchiveId} {createdAt : String} {session : Session}
  {m : Machine}

/-- A session serves a view under an identity: its archive serves the ledger of the view,
and the session is open for writing. -/
structure ServesView (l : Layout) (s : Settings) (dir : NodeId) (id : ArchiveId)
    (createdAt : String) (view : View) (session : Session) (m : Machine) : Prop where
  archive : Archive.ServesLedger l s dir id createdAt view.ledger session.primary m
  enabled : session.enabled = view.enabled
  status : session.status = .openForWrite
  codec : session.codec = .ofSettings s
  reference : ∀ a, session.reference = some a → a.mode = .read

/-- A session that was just opened. -/
theorem servesView_ofArchives {live : Ledger} {a : Archive}
    (h : Archive.ServesLedger l s dir id createdAt live a m) (durability : Durability) :
    ServesView l s dir id createdAt ⟨true, live⟩ (ofArchives a none durability) m := by
  obtain ⟨saved, hFollows, -⟩ := h.ledger
  refine ⟨h, rfl, ?_, ?_, fun _ hNone => by cases hNone⟩
  · change a.mode.status = .openForWrite
    rw [hFollows.mode]
    rfl
  · change Codec.ofSettings a.settings = .ofSettings s
    rw [hFollows.settings]

theorem ServesView.readsBack_eq (h : ServesView l s dir id createdAt view session m) :
    session.primary.tables.readsBack = view.ledger.readsBack :=
  h.archive.readsBack_eq

theorem ServesView.of_archive (h : ServesView l s dir id createdAt view session m) {live : Ledger}
    {a : Archive} {m' : Machine} (hArchive : Archive.ServesLedger l s dir id createdAt live a m') :
    ServesView l s dir id createdAt { view with ledger := live } { session with primary := a } m' :=
  ⟨hArchive, h.enabled, h.status, h.codec, h.reference⟩

/-- What a session leaves that was given a request: the answer, and a session that serves
the view after it. -/
structure AnsweredRequest (l : Layout) (s : Settings) (dir : NodeId) (id : ArchiveId)
    (createdAt : String) (response : Reply × View) (session : Session) (m : Machine)
    (answer : Reply × Session × Machine) : Prop where
  reply : answer.1 = response.1
  serves : ServesView l s dir id createdAt response.2 answer.2.1 answer.2.2
  environment : answer.2.2.environment = m.environment
  durability : answer.2.1.durability = session.durability

theorem ServesView.answeredRequest_self (h : ServesView l s dir id createdAt view session m)
    (reply : Reply) :
    AnsweredRequest l s dir id createdAt (reply, view) session m (reply, session, m) :=
  ⟨rfl, h, rfl, rfl⟩

/-- A request that goes to the archive. -/
theorem perform_of_archive? (hStatus : session.status = .openForWrite) {request : Request}
    {asked : Archive.Request} (h : request.archive? = some asked) (m : Machine) :
    request.perform (session, m) =
      let answer := asked.perform session.primary m
      (.ofArchive answer.reply, { session with primary := answer.archive }, answer.machine) := by
  have hRequire : ∀ operation, session.require .openForWrite operation = .ok () := by
    intro operation
    simp [require, hStatus]
  cases request with
  | registerField info =>
      cases h
      simp only [Request.perform, Session.registerField, hRequire, bind, Except.bind,
        Archive.Request.perform]
      cases session.primary.registerField info <;> rfl
  | registerSavepoint point =>
      cases h
      simp only [Request.perform, Session.registerSavepoint, hRequire, bind, Except.bind,
        Archive.Request.perform]
      cases session.primary.registerSavepoint point <;> rfl
  | addMetainfo key value =>
      cases h
      simp only [Request.perform, Session.addMetainfo, hRequire, bind, Except.bind,
        Archive.Request.perform]
      cases session.primary.addMetainfo key value <;> rfl
  | addFieldMetainfo field key value =>
      cases h
      simp only [Request.perform, Session.addFieldMetainfo, hRequire, bind, Except.bind,
        Archive.Request.perform]
      cases session.primary.addFieldMetainfo field key value <;> rfl
  | flush =>
      cases h
      have hOpen : session.requireOpen .flush = .ok () := by simp [requireOpen, hStatus]
      have hFlush : Session.flush (session, m) = onPrimary Archive.flush (session, m) := by
        unfold Session.flush
        rw [get_bind, hOpen, Effect.ofExcept_bind]
      simp only [Request.perform, Reply.ofAction, hFlush, onPrimary, Archive.Request.perform]
      cases Archive.flush (session.primary, m) <;> rfl
  | _ => cases h

/-- A request to the archive of a session is answered as by its ledger. -/
theorem ServesView.ask (hPlain : l.HasPlainNames)
    (h : ServesView l s dir id createdAt view session m) (hCalm : m.IsCalm)
    {asked : Archive.Request} (hBuilt : asked.IsBuilt) (hNone : asked.payload? = none)
    (hText : asked = .flush → Writable s id createdAt m.environment view.ledger) :
    let answer := asked.perform session.primary m
    AnsweredRequest l s dir id createdAt (view.ask s asked) session m
      (.ofArchive answer.reply, { session with primary := answer.archive }, answer.machine) := by
  have hInjective : ∀ bytes, asked.payload? = some bytes →
      Set.InjOn (Checksum.compute s.checksum) {p | p ∈ view.ledger.payloads ++ [bytes]} := by
    intro bytes hBytes
    rw [hNone] at hBytes
    cases hBytes
  have hRoom : view.ledger.content.length + asked.size ≤ Disk.maxFileLength := by
    obtain ⟨saved, hFollows, -⟩ := h.archive.ledger
    simpa [Archive.Request.size, hNone] using hFollows.isValid.content_le
  obtain ⟨hReply, hServes, hWorld⟩ :=
    h.archive.answer_of_isCalm hPlain hCalm hBuilt hInjective hRoom hText
  exact ⟨by rw [hReply]; rfl, h.of_archive hServes, hWorld, rfl⟩

/-- Bytes are stored in a session as in its ledger. -/
theorem ServesView.append (hPlain : l.HasPlainNames)
    (h : ServesView l s dir id createdAt view session m) (hCalm : m.IsCalm) {point : Savepoint}
    {field : String} {bytes : List UInt8}
    (hInjective : Set.InjOn (Checksum.compute s.checksum) {p | p ∈ view.ledger.payloads ++ [bytes]})
    (hRoom : view.ledger.content.length + bytes.length ≤ Disk.maxFileLength)
    (hText : session.durability = .always → Writable s id createdAt m.environment
      (view.ask s (.append ⟨point, field, bytes⟩)).2.ledger) :
    AnsweredRequest l s dir id createdAt (view.ask s (.append ⟨point, field, bytes⟩)) session m
      (Reply.ofAction .wrote (Session.append point field bytes) (session, m)) := by
  have hBuilt : (Archive.Request.append ⟨point, field, bytes⟩).IsBuilt := trivial
  obtain ⟨hReply, hServes, hWorld⟩ := h.archive.answer_of_isCalm hPlain hCalm hBuilt
    (fun p hp => by cases hp; exact hInjective) hRoom nofun
  cases hAppend : Archive.append point field bytes (session.primary, m) with
  | error e state =>
      simp only [Archive.Request.perform, hAppend, Archive.Answer.ofResult] at hReply hServes hWorld
      simp only [Reply.ofAction, append_eq, hAppend, View.ask, ← hReply]
      exact ⟨rfl, h.of_archive hServes, hWorld, rfl⟩
  | ok appended state =>
      obtain ⟨a, m₁⟩ := state
      simp only [Archive.Request.perform, hAppend, Archive.Answer.ofResult] at hReply hServes hWorld
      by_cases hAlways : session.durability = .always
      · -- every write is durable in this session, so a flush comes after it
        obtain ⟨a', m', hFlush, hFlushed, hWorld'⟩ := hServes.exists_flush hPlain
          (fun n => by rw [hWorld]; exact hCalm n) (by rw [hWorld]; exact hText hAlways)
        simp only [Reply.ofAction, append_eq, hAppend, if_pos hAlways, hFlush, View.ask, ← hReply]
        exact ⟨rfl, h.of_archive hFlushed, hWorld'.trans hWorld, rfl⟩
      · simp only [Reply.ofAction, append_eq, hAppend, if_neg hAlways, View.ask, ← hReply]
        exact ⟨rfl, h.of_archive hServes, hWorld, rfl⟩

/-- The machine has room for a request: for its bytes in the data file, and for the document
that is written if it is a flush or a durable write. -/
structure HasRoom (s : Settings) (durability : Durability) (id : ArchiveId) (createdAt : String)
    (world : Environment) (view : View) (request : Request) : Prop where
  bytes : ∀ p ∈ request.payload? s, view.ledger.content.length + p.length ≤ Disk.maxFileLength
  flush : request = .flush → Writable s id createdAt world view.ledger
  always : durability = .always → Writable s id createdAt world (request.respond s view).2.ledger

/-- The bytes of a write are prepared in a session as in its ledger. -/
theorem prepare_eq {live saved : Ledger} {intact : Prop}
    (h : Archive.FollowsLedger l s dir True intact live saved session.primary m)
    (hStatus : session.status = .openForWrite) (hCodec : session.codec = .ofSettings s)
    (x : Snapshot) :
    session.prepare x.point x.field x.buffer = live.prepared s session.enabled x := by
  simp only [prepare, require, hStatus, ne_eq, not_true_eq_false, if_false, h.find?_eq, hCodec,
    Ledger.prepared, bind, Except.bind]
  cases live.fields.find? fun f => f.name == x.field with
  | none => rfl
  | some info =>
      cases session.enabled with
      | false => rfl
      | true => cases (Codec.ofSettings s).encode info x.buffer <;> rfl

/-- A write of a registered field is answered as by the view. -/
theorem ServesView.write (hPlain : l.HasPlainNames)
    (h : ServesView l s dir id createdAt view session m) (hCalm : m.IsCalm) (x : Snapshot)
    (hInjective : Set.InjOn (Checksum.compute s.checksum)
      {p | p ∈ view.ledger.payloads ++ [x.payload s.endianness]})
    (hRoom : HasRoom s session.durability id createdAt m.environment view
      (.write x.point x.field x.buffer)) :
    AnsweredRequest l s dir id createdAt (view.write s x) session m
      ((Request.write x.point x.field x.buffer).perform (session, m)) := by
  obtain ⟨saved, hFollows, -⟩ := h.archive.ledger
  have hAfter : session.durability = .always →
      Writable s id createdAt m.environment (view.write s x).2.ledger := hRoom.always
  simp only [Request.perform, Reply.ofAction, write_eq,
    prepare_eq hFollows h.status h.codec x, h.enabled]
  unfold View.write at hAfter ⊢
  cases hPrepared : view.ledger.prepared s view.enabled x with
  | error e => exact h.answeredRequest_self _
  | ok prepared =>
      cases prepared with
      | none => exact h.answeredRequest_self _
      | some bytes =>
          obtain rfl := Ledger.payload_of_prepared hPrepared
          rw [hPrepared] at hAfter
          exact h.append hPlain hCalm hInjective (hRoom.bytes _ rfl) hAfter

/-- A field is registered as by the ledger, which keeps its snapshots. -/
theorem ServesView.registerField_cases (h : ServesView l s dir id createdAt view session m)
    {info : FieldInfo} (hBuilt : info.IsBuilt) :
    (∃ e, session.primary.registerField info = .error e ∧
      (Archive.Request.registerField info).respond s view.ledger = .error e) ∨
    ∃ registration a reply next, session.primary.registerField info = .ok (registration, a) ∧
      (Archive.Request.registerField info).respond s view.ledger = .ok (reply, next) ∧
      next.payloads ⊆ view.ledger.payloads ∧
      next.content.length ≤ view.ledger.content.length ∧
      ServesView l s dir id createdAt { view with ledger := next } { session with primary := a }
        m := by
  obtain ⟨saved, hFollows, hBears⟩ := h.archive.ledger
  rcases hFollows.registerField_matches hBuilt with ⟨e, hError, hRespond⟩ |
    ⟨reply, a, next, hOk, hRespond, hNext, hId, hCreatedAt⟩
  · cases hRegister : session.primary.registerField info with
    | error e' =>
        rw [hRegister] at hError
        cases hError
        exact Or.inl ⟨e, rfl, hRespond⟩
    | ok done =>
        rw [hRegister] at hError
        cases hError
  · cases hRegister : session.primary.registerField info with
    | error e' =>
        rw [hRegister] at hOk
        cases hOk
    | ok done =>
        obtain ⟨registration, a'⟩ := done
        rw [hRegister] at hOk
        cases hOk
        have hSame : (Archive.Request.registerField info).next s view.ledger = next := by
          simp only [Archive.Request.next, hRespond]
        refine Or.inr ⟨registration, a', _, next, rfl, hRespond, fun p hp => ?_, ?_,
          h.of_archive ⟨hId.trans h.archive.id_eq, hCreatedAt.trans h.archive.createdAt_eq, saved,
            hNext, hBears⟩⟩
        · rw [← hSame] at hp
          exact (Archive.Request.payloads_next hp).resolve_right fun hNone => by cases hNone
        · rw [← hSame]
          exact Archive.Request.content_next_le s view.ledger (.registerField info)

/-- A write of a field that is registered on its first use is answered as by the view. -/
theorem ServesView.writeField (hPlain : l.HasPlainNames)
    (h : ServesView l s dir id createdAt view session m) (hCalm : m.IsCalm) (x : Snapshot)
    {info : FieldInfo} (hBuilt : info.IsBuilt)
    (hInjective : Set.InjOn (Checksum.compute s.checksum)
      {p | p ∈ view.ledger.payloads ++ [x.payload s.endianness]})
    (hRoom : HasRoom s session.durability id createdAt m.environment view
      (.writeField x.point x.field info x.buffer)) :
    AnsweredRequest l s dir id createdAt (view.writeField s x.point x.field info x.buffer) session m
      ((Request.writeField x.point x.field info x.buffer).perform (session, m)) := by
  have hAfter : session.durability = .always → Writable s id createdAt m.environment
      (view.writeField s x.point x.field info x.buffer).2.ledger := hRoom.always
  have hPrepare : session.prepareField x.field info x.buffer =
      if x.field ≠ info.name then .error (.invalidArgument (.otherName x.field info.name))
      else if view.enabled then ((Codec.ofSettings s).encode info x.buffer).map some
      else .ok none := by
    simp only [prepareField, require, h.status, h.enabled, h.codec, bind, Except.bind]
    cases (Codec.ofSettings s).encode info x.buffer <;> rfl
  change AnsweredRequest l s dir id createdAt _ session m
    (Reply.ofAction .wrote (Session.writeField x.point x.field info x.buffer) (session, m))
  unfold Reply.ofAction
  rw [writeField_eq, hPrepare]
  unfold View.writeField at hAfter ⊢
  split
  · exact h.answeredRequest_self _
  · next hName =>
      split
      · next hEnabled =>
          cases hEncode : (Codec.ofSettings s).encode info x.buffer with
          | error e => exact h.answeredRequest_self _
          | ok bytes =>
              obtain rfl : bytes = x.payload s.endianness := (Codec.encode_ok hEncode).2
              simp only [if_neg hName, if_pos hEnabled, hEncode] at hAfter
              simp only [Except.map]
              rcases h.registerField_cases hBuilt with ⟨e, hRegister, hRespond⟩ |
                ⟨registration, a, reply, next, hRegister, hRespond, hPayloads, hContent, hNext⟩
              · rw [hRegister, hRespond]
                exact h.answeredRequest_self _
              · simp only [hRespond] at hAfter
                rw [hRegister, hRespond]
                have hFits := hRoom.bytes _ rfl
                have hDone := hNext.append hPlain hCalm
                  (hInjective.mono fun p hp => by
                    rcases List.mem_append.1 hp with hOld | hOwn
                    · exact List.mem_append_left _ (hPayloads hOld)
                    · exact List.mem_append_right _ hOwn)
                  (le_trans (Nat.add_le_add_right hContent _) hFits) hAfter
                exact ⟨hDone.reply, hDone.serves, hDone.environment, hDone.durability⟩
      · exact h.answeredRequest_self _

/-- Every request is answered as by the view. -/
theorem ServesView.perform (hPlain : l.HasPlainNames)
    (h : ServesView l s dir id createdAt view session m) (hCalm : m.IsCalm)
    (hBuilt : request.IsBuilt) (hInjective : ∀ bytes, request.payload? s = some bytes →
      Set.InjOn (Checksum.compute s.checksum) {p | p ∈ view.ledger.payloads ++ [bytes]})
    (hRoom : HasRoom s session.durability id createdAt m.environment view request) :
    AnsweredRequest l s dir id createdAt (request.respond s view) session m
      (request.perform (session, m)) := by
  have hAsk : ∀ asked : Archive.Request, request.archive? = some asked → asked.IsBuilt →
      asked.payload? = none → (asked = .flush → request = .flush) →
      request.respond s view = view.ask s asked →
      AnsweredRequest l s dir id createdAt (request.respond s view) session m
        (request.perform (session, m)) := by
    intro asked hAsked hAskedBuilt hNone hFlush hRespond
    rw [hRespond, perform_of_archive? h.status hAsked]
    exact h.ask hPlain hCalm hAskedBuilt hNone fun hSame => hRoom.flush (hFlush hSame)
  cases request with
  | registerField info => exact hAsk _ rfl hBuilt rfl nofun rfl
  | registerSavepoint point => exact hAsk _ rfl trivial rfl nofun rfl
  | addMetainfo key value => exact hAsk _ rfl trivial rfl nofun rfl
  | addFieldMetainfo field key value => exact hAsk _ rfl trivial rfl nofun rfl
  | flush => exact hAsk _ rfl trivial rfl (fun _ => rfl) rfl
  | writeField point name info buffer =>
      exact h.writeField hPlain hCalm ⟨point, name, buffer⟩ hBuilt (hInjective _ rfl) hRoom
  | write point name buffer =>
      exact h.write hPlain hCalm ⟨point, name, buffer⟩ (hInjective _ rfl) hRoom
  | enable => exact ⟨rfl, ⟨h.archive, rfl, h.status, h.codec, h.reference⟩, rfl, rfl⟩
  | disable => exact ⟨rfl, ⟨h.archive, rfl, h.status, h.codec, h.reference⟩, rfl, rfl⟩
  | stats =>
      obtain ⟨saved, hFollows, -⟩ := h.archive.ledger
      obtain ⟨arena, data, hArena, -, hLength, -⟩ := hFollows.arena
      have hStats : session.stats = .ok view.ledger.counts :=
        stats_of_records (by rw [h.status]; simp) hFollows.tables hFollows.isValid
          (by simp [Archive.dataLength, hArena, hLength])
      have hPerform : Request.stats.perform (session, m) =
          (.counted view.ledger.counts, session, m) := by
        simp only [Request.perform, hStats]
      rw [hPerform]
      exact h.answeredRequest_self _

/-! ## One session -/

/-- Requests that a session can be given: descriptions come from the constructor, the
digest tells the payloads apart, and there is room for everything. -/
structure Workable (s : Settings) (durability : Durability) (id : ArchiveId) (createdAt : String)
    (world : Environment) (view : View) (requests : List Request) : Prop where
  built : ∀ r ∈ requests, r.IsBuilt
  injective : Set.InjOn (Checksum.compute s.checksum)
    {p | p ∈ view.ledger.payloads ∨ ∃ r ∈ requests, r.payload? s = some p}
  room : ∀ live ∈ view.ledgers s requests, ∀ r ∈ requests, ∀ p ∈ r.payload? s,
    live.content.length + p.length ≤ Disk.maxFileLength
  writable : ∀ live ∈ view.flushed s durability requests, Writable s id createdAt world live

variable {world : Environment}

theorem Workable.hasRoom (h : Workable s durability id createdAt world view (request :: rest)) :
    HasRoom s durability id createdAt world view request where
  bytes := h.room _ List.mem_cons_self request List.mem_cons_self
  flush hFlush := by
    subst hFlush
    exact h.writable _ View.mem_flushed_of_flush
  always hAlways := by
    subst hAlways
    exact h.writable _ (View.flushed_tail_subset View.mem_flushed_of_always)

theorem Workable.injective_head
    (h : Workable s durability id createdAt world view (request :: rest))
    (bytes : List UInt8) (hBytes : request.payload? s = some bytes) :
    Set.InjOn (Checksum.compute s.checksum) {p | p ∈ view.ledger.payloads ++ [bytes]} := by
  refine h.injective.mono fun p hp => ?_
  rcases List.mem_append.1 hp with hOld | hLast
  · exact Or.inl hOld
  · exact Or.inr ⟨request, List.mem_cons_self, List.mem_singleton.1 hLast ▸ hBytes⟩

/-- The first request leaves the others workable. -/
theorem Workable.tail (h : Workable s durability id createdAt world view (request :: rest)) :
    Workable s durability id createdAt world (request.respond s view).2 rest where
  built r hr := h.built r (List.mem_cons_of_mem _ hr)
  injective := by
    refine h.injective.mono fun p hp => ?_
    rcases hp with hLedger | ⟨r, hr, hBytes⟩
    · exact (Request.payloads_respond hLedger).imp_right fun hBytes =>
        ⟨request, List.mem_cons_self, hBytes⟩
    · exact Or.inr ⟨r, List.mem_cons_of_mem _ hr, hBytes⟩
  room live hLive r hr :=
    h.room live (List.mem_cons_of_mem _ hLive) r (List.mem_cons_of_mem _ hr)
  writable live hLive := h.writable live (View.flushed_tail_subset hLive)

/-- Requests are answered as by the view. -/
theorem ServesView.serve (hPlain : l.HasPlainNames)
    (h : ServesView l s dir id createdAt view session m) (hCalm : m.IsCalm)
    (hWork : Workable s session.durability id createdAt m.environment view requests) :
    ∃ session' m', Session.serve requests (session, m) =
        (view.answers s session.durability requests, session', m') ∧
      ServesView l s dir id createdAt (view.after s requests) session' m' ∧
      m'.environment = m.environment ∧ session'.durability = session.durability := by
  induction requests generalizing view session m with
  | nil => exact ⟨session, m, rfl, h, rfl, rfl⟩
  | cons request rest ih =>
      have hHead := h.perform hPlain hCalm (hWork.built request List.mem_cons_self)
        hWork.injective_head hWork.hasRoom
      obtain ⟨session', m', hServe, hLast, hWorld, hKept⟩ := ih hHead.serves
        (fun n => by rw [hHead.environment]; exact hCalm n) (by
          rw [hHead.environment, hHead.durability]
          exact hWork.tail)
      refine ⟨session', m', ?_, hLast, hWorld.trans hHead.environment,
        hKept.trans hHead.durability⟩
      change (⟨session.durability, request, (request.perform (session, m)).1⟩ ::
          (Session.serve rest (request.perform (session, m)).2).1,
        (Session.serve rest (request.perform (session, m)).2).2) = _
      rw [hHead.durability] at hServe
      rw [show Session.serve rest (request.perform (session, m)).2 = _ from hServe, hHead.reply]
      rfl

/-- A session is closed, and its archive can be opened again. -/
theorem ServesView.close (hPlain : l.HasPlainNames)
    (h : ServesView l s dir id createdAt view session m) (hCalm : m.IsCalm)
    (hText : Writable s id createdAt m.environment view.ledger) :
    ∃ closed m' file, Session.close (session, m) = .ok () (closed, m') ∧
      closed.primary.tables.readsBack = view.ledger.readsBack ∧ l.IsUsable ∧
      m'.disk.KeepsLedger l s dir view.ledger file view.ledger.content ∧
      m'.disk.BearsIdentity l s dir id createdAt view.ledger ∧ m'.environment = m.environment := by
  obtain ⟨a, m', hClose, hTables, -, hUsable, ⟨file, hKeeps⟩, hBears, hWorld⟩ :=
    h.archive.close hPlain fun e state hError => h.archive.close_of_isCalm hCalm hText hError
  obtain ⟨closed, hReference, hSame⟩ :=
    closeReference_ok { session with status := .closed, primary := a } h.reference m'
  refine ⟨closed, m', file, ?_, ?_, hUsable, hKeeps, hBears, hWorld⟩
  · simp only [Session.close, h.status, reduceCtorEq, if_false, onPrimary, hClose]
    exact hReference
  · rw [hSame]
    exact hTables.readsBack_eq

/-! ## Sessions one after the other -/

/-- The answers to the requests of sessions that are opened one after the other. -/
def answersOf (s : Settings) (durability : Durability) : Ledger → List (List Request) →
    List (List Event)
  | _, [] => []
  | live, requests :: rest =>
      View.answers s durability ⟨true, live⟩ requests ::
        answersOf s durability (View.after s ⟨true, live⟩ requests).ledger rest

/-- Sessions whose requests are workable, and that leave ledgers which documents give
back. -/
def AllWorkable (s : Settings) (durability : Durability) (id : ArchiveId) (createdAt : String)
    (world : Environment) : Ledger → List (List Request) → Prop
  | _, [] => True
  | live, requests :: rest =>
      Workable s durability id createdAt world ⟨true, live⟩ requests ∧
        (View.after s ⟨true, live⟩ requests).ledger.readsBack = true ∧
        AllWorkable s durability id createdAt world (View.after s ⟨true, live⟩ requests).ledger rest

variable {directory stem : String} {config : Config} {live : Ledger}
  {a : Archive} {m₁ : Machine} {sessions : List (List Request)}

/-- A disk keeps a ledger exactly, under an identity, and documents give the ledger back:
what a session leaves. -/
structure ClosedArchive (l : Layout) (s : Settings) (dir : NodeId) (id : ArchiveId)
    (createdAt : String) (live : Ledger) (d : Disk) : Prop where
  usable : l.IsUsable
  keeps : ∃ file, d.KeepsLedger l s dir live file live.content
  bears : d.BearsIdentity l s dir id createdAt live
  readsBack : live.readsBack = true

/-- A session on an archive that was opened is closed with the answers of its ledger. -/
theorem exists_run_of_servesLedger (hPlain : l.HasPlainNames)
    (hLayout : Layout.make directory stem = .ok l) (hSettings : config.settings = .ok s)
    (hDurability : config.durabilitySetting = .ok durability)
    (hOpen : Archive.openForWrite l s config.syncData m = .ok a m₁)
    (hArchive : Archive.ServesLedger l s dir id createdAt live a m₁) (hCalm : m₁.IsCalm)
    (hWork : Workable s durability id createdAt m₁.environment ⟨true, live⟩ requests)
    (hReads : (View.after s ⟨true, live⟩ requests).ledger.readsBack = true) :
    ∃ v, Visit.run directory stem ⟨config, none, requests⟩ m = some v ∧
      v.events = View.answers s durability ⟨true, live⟩ requests ∧
      v.session.primary.tables.readsBack = true ∧
      ClosedArchive l s dir id createdAt (View.after s ⟨true, live⟩ requests).ledger
        v.machine.disk ∧
      v.machine.environment = m₁.environment := by
  obtain ⟨session', m₂, hServe, hServed, hWorld, -⟩ :=
    (servesView_ofArchives hArchive durability).serve hPlain hCalm hWork
  obtain ⟨closed, m', file, hClose, hTables, hUsable, hKeeps, hBears, hWorld'⟩ :=
    hServed.close hPlain (fun n => by rw [hWorld]; exact hCalm n)
      (hWorld ▸ hWork.writable _ View.after_mem_flushed)
  have hOpened : openWith directory stem .write none config m =
      .ok (ofArchives a none durability) m₁ := openWith_eq hLayout hSettings hDurability hOpen
  refine ⟨⟨_, closed, m'⟩, ?_, rfl, hTables.trans hReads, ⟨hUsable, ⟨file, hKeeps⟩, hBears, hReads⟩,
    hWorld'.trans hWorld⟩
  simp only [Visit.run, hOpened, hServe, hClose]
  rfl

/-- A session in front of sessions that complete. -/
theorem exists_runAll_cons {v : Visited}
    (hRun : Visit.run directory stem ⟨config, none, requests⟩ m = some v)
    (hEvents : v.events = View.answers s durability ⟨true, live⟩ requests)
    (hReads : v.session.primary.tables.readsBack = true)
    (hRest : ∃ visited, runAll directory stem (sessions.map (Visit.mk config none)) v.machine =
        some visited ∧ visited.map Visited.events =
          answersOf s durability (View.after s ⟨true, live⟩ requests).ledger sessions ∧
      ∀ v ∈ visited, v.session.primary.tables.readsBack = true) :
    ∃ visited, runAll directory stem ((requests :: sessions).map (Visit.mk config none)) m =
        some visited ∧
      visited.map Visited.events = answersOf s durability live (requests :: sessions) ∧
      ∀ v ∈ visited, v.session.primary.tables.readsBack = true := by
  obtain ⟨visited, hSome, hAnswers, hAll⟩ := hRest
  refine ⟨v :: visited, ?_, ?_, List.forall_mem_cons.2 ⟨hReads, hAll⟩⟩
  · simp only [List.map_cons, runAll, hRun, hSome, bind, Option.bind_some, pure]
  · rw [List.map_cons, hEvents, hAnswers, answersOf]

/-- Sessions on an archive that is there complete, with the answers of their ledgers. -/
theorem exists_runAll_of_closedArchive (hPlain : l.HasPlainNames)
    (hLayout : Layout.make directory stem = .ok l) (hSettings : config.settings = .ok s)
    (hDurability : config.durabilitySetting = .ok durability)
    (hKept : ClosedArchive l s dir id createdAt live m.disk) (hCalm : m.IsCalm)
    (hWork : AllWorkable s durability id createdAt m.environment live sessions) :
    ∃ visited, runAll directory stem (sessions.map (Visit.mk config none)) m = some visited ∧
      visited.map Visited.events = answersOf s durability live sessions ∧
      ∀ v ∈ visited, v.session.primary.tables.readsBack = true := by
  induction sessions generalizing live m with
  | nil => exact ⟨[], rfl, rfl, by simp⟩
  | cons requests rest ih =>
      obtain ⟨file, hKeeps⟩ := hKept.keeps
      obtain ⟨a, hOpen, hArchive, -⟩ := Archive.servesLedger_of_openForWrite hKept.usable hKeeps
        hKept.bears hKept.readsBack config.syncData
      obtain ⟨v, hRun, hEvents, hReads, hNext, hWorld⟩ := exists_run_of_servesLedger hPlain hLayout
        hSettings hDurability hOpen hArchive hCalm hWork.1 hWork.2.1
      exact exists_runAll_cons hRun hEvents hReads
        (ih hNext (fun n => by rw [hWorld]; exact hCalm n) (hWorld ▸ hWork.2.2))

/-- On a machine without failures, a run of sessions completes that creates an archive and
then opens it again any number of times, and every request is answered as by the ledger
that the requests before it have left. -/
theorem exists_runAll (hLayout : Layout.make directory stem = .ok l)
    (hSettings : config.settings = .ok s) (hDurability : config.durabilitySetting = .ok durability)
    (hWell : m.disk.WellFormed) (hVacant : l.IsVacant m)
    (hOpen : Archive.openForWrite l s config.syncData m = .ok a m₁) (hCalm : m.IsCalm)
    (hWork : AllWorkable s durability a.id a.createdAt m.environment .empty
      (requests :: sessions)) :
    ∃ visited, runAll directory stem ((requests :: sessions).map (Visit.mk config none)) m =
        some visited ∧
      visited.map Visited.events = answersOf s durability .empty (requests :: sessions) ∧
      ∀ v ∈ visited, v.session.primary.tables.readsBack = true := by
  have hPlain := Layout.hasPlainNames_of_make hLayout
  obtain ⟨dir, hArchive⟩ := Archive.servesLedger_of_isVacant hPlain hWell hVacant hOpen
  obtain ⟨-, -, -, hWorld⟩ := Archive.openForWrite_of_isVacant hPlain hWell hVacant hOpen
  rw [← hWorld] at hWork
  have hCalm₁ : m₁.IsCalm := fun n => by rw [hWorld]; exact hCalm n
  obtain ⟨v, hRun, hEvents, hReads, hNext, hWorld'⟩ := exists_run_of_servesLedger hPlain hLayout
    hSettings hDurability hOpen hArchive hCalm₁ hWork.1 hWork.2.1
  exact exists_runAll_cons hRun hEvents hReads (exists_runAll_of_closedArchive hPlain hLayout
    hSettings hDurability hNext (fun n => by rw [hWorld']; exact hCalm₁ n) (hWorld' ▸ hWork.2.2))

end Session
end FieldArchive

import FieldArchive.Proofs.Archive.Serving
import FieldArchive.Proofs.Session.Alike

/-!
# Writes to different keys commute

A list of writes whose keys are pairwise different can be made in any order: every write
ends in the same way, with the same error if it fails, and an archive results that answers
as any other of them does (`Session.writes_commute`).  What a write does is judged by the
ledger before the first of them alone (`Ledger.judge`), since the others change neither
the fields nor whether its key is taken (`Ledger.IsNumbered.judge_storeAll`).

The archives need not be equal.  The first of some writes with equal bytes is the one that
is stored, and the numbers of savepoints, the order of entries and the ranges of the data
file are those of the order in which the writes came.
-/

namespace FieldArchive

open Archive (Blob)

namespace Session

/-- The request to store a snapshot of a registered field. -/
def Snapshot.call (x : Snapshot) : Request := .write x.point x.field x.buffer

/-- How a write ended, whether or not equal bytes were stored before. -/
def Reply.verdict : Reply → Except Error Bool
  | .failed e => .error e
  | reply => .ok reply.record?.isSome

end Session

namespace Ledger

variable {live : Ledger} {s : Settings} {enabled : Bool} {x : Session.Snapshot} {blob : Blob}
  {blobs : List Blob}

/-- What becomes of a write: the bytes that are stored, nothing if the session is disabled,
or an error. -/
def judge (s : Settings) (enabled : Bool) (live : Ledger) (x : Session.Snapshot) :
    Except Error (Option Blob) :=
  match live.prepared s enabled x with
  | .error e => .error e
  | .ok none => .ok none
  | .ok (some bytes) =>
      match live.refusal? s ⟨x.point, x.field, bytes⟩ with
      | some e => .error e
      | none => .ok (some ⟨x.point, x.field, bytes⟩)

/-- The bytes that a write stores, if it does. -/
def taken? (s : Settings) (enabled : Bool) (live : Ledger) (x : Session.Snapshot) : Option Blob :=
  match live.judge s enabled x with
  | .ok taken => taken
  | .error _ => none

theorem eq_of_judge (h : live.judge s enabled x = .ok (some blob)) :
    blob = ⟨x.point, x.field, x.payload s.endianness⟩ := by
  unfold judge at h
  split at h
  · cases h
  · cases h
  · next bytes hPrepared =>
      split at h
      · cases h
      · cases h
        rw [payload_of_prepared hPrepared]

theorem eq_of_taken? (h : live.taken? s enabled x = some blob) :
    blob = ⟨x.point, x.field, x.payload s.endianness⟩ := by
  unfold taken? at h
  split at h
  · next hJudge =>
      rw [h] at hJudge
      exact eq_of_judge hJudge
  · cases h

/-- A write adds its own bytes at most. -/
theorem mem_payloads_of_taken {p : List UInt8}
    (h : p ∈ (live.storeAll (live.taken? s enabled x).toList).payloads) :
    p ∈ live.payloads ∨ p = x.payload s.endianness := by
  rw [payloads_storeAll, List.mem_append, List.mem_map] at h
  rcases h with hOld | ⟨b, hb, rfl⟩
  · exact Or.inl hOld
  · rw [eq_of_taken? (Option.mem_toList.1 hb)]
    exact Or.inr rfl

/-- Snapshots under other keys make no difference to a write. -/
theorem IsNumbered.judge_storeAll (h : live.IsNumbered)
    (hOther : ∀ b ∈ blobs, (b.point == x.point) = true → b.field ≠ x.field) :
    (live.storeAll blobs).judge s enabled x = live.judge s enabled x := by
  have hRefusal : ∀ bytes, (live.storeAll blobs).refusal? s ⟨x.point, x.field, bytes⟩ =
      live.refusal? s ⟨x.point, x.field, bytes⟩ := fun bytes => h.refusal?_storeAll hOther
  simp only [judge, prepared, live.fields_storeAll, hRefusal]

theorem IsNumbered.taken?_storeAll (h : live.IsNumbered)
    (hOther : ∀ b ∈ blobs, (b.point == x.point) = true → b.field ≠ x.field) :
    (live.storeAll blobs).taken? s enabled x = live.taken? s enabled x := by
  rw [taken?, h.judge_storeAll hOther, taken?]

end Ledger

/-! ## One write -/

/-- An archive is flushed, unless the file system fails. -/
theorem Archive.FollowsLedger.flush_ok_or_io {l : Layout} {s : Settings} {dir : NodeId}
    {exact intact : Prop} {live saved : Ledger} {a : Archive} {m : Machine}
    (h : Archive.FollowsLedger l s dir exact intact live saved a m) :
    (∃ e state, flush (a, m) = .error e state ∧ e.isIo = true) ∨
    ∃ a' m' saved', flush (a, m) = .ok () (a', m') ∧
      Archive.FollowsLedger l s dir exact intact live saved' a' m' := by
  cases hDirty : a.dirty with
  | false => exact Or.inr ⟨a, m, saved, h.flush_of_clean hDirty, h⟩
  | true =>
      rcases (h.flush_ends hDirty).cases with ⟨e, m', hFlush, -, -⟩ | ⟨e, m', hFlush, -, -⟩ |
        ⟨a', m', hFlush, -, hFollows, -, -⟩
      · exact Or.inl ⟨_, _, hFlush, rfl⟩
      · exact Or.inl ⟨_, _, hFlush, rfl⟩
      · exact Or.inr ⟨a', m', live, hFlush, hFollows⟩

namespace Session

variable {l : Layout} {s : Settings} {dir : NodeId} {live saved : Ledger} {session : Session}
  {m : Machine} {x : Snapshot} {log : List Event}

/-- Storing bytes fails as the ledger says, or it succeeds, unless the file system fails. -/
theorem append_judged (h : Archive.FollowsLedger l s dir True True live saved session.primary m)
    (blob : Blob)
    (hDigest : Set.InjOn (Checksum.compute s.checksum) {p | p ∈ live.payloads ++ [blob.bytes]})
    (hIo : ∀ e state, append blob.point blob.field blob.bytes (session, m) = .error e state →
      e.isIo = false) :
    (∃ e, append blob.point blob.field blob.bytes (session, m) = .error e (session, m) ∧
      live.refusal? s blob = some e) ∨
    ∃ r a' m' saved', append blob.point blob.field blob.bytes (session, m) =
        .ok (.ofAppended r) ({ session with primary := a' }, m') ∧
      live.refusal? s blob = none ∧
      Archive.FollowsLedger l s dir True True (Archive.stored live blob.point blob.field blob.bytes)
        saved'
        a' m' := by
  rcases h.append_matches hDigest with ⟨e, hError, hRespond⟩ | ⟨e, state, hError⟩ |
    ⟨r, a', m', next, hOk, hRespond, hNext⟩
  · refine Or.inl ⟨e, ?_, ?_⟩
    · rw [append_eq, hError]
    · simp only [Ledger.refusal?, hRespond]
  · have hNot := hIo (.io e) ({ session with primary := state.1 }, state.2)
      (by rw [append_eq, hError])
    cases hNot
  · have hRefusal : live.refusal? s blob = none := by simp only [Ledger.refusal?, hRespond]
    rw [Ledger.eq_stored_of_respond hRespond] at hNext
    -- the flush after a durable write succeeds, since the file system does not fail
    by_cases hAlways : session.durability = .always
    · rcases hNext.flush_ok_or_io with ⟨e, state, hFlush, hFails⟩ |
        ⟨a'', m'', saved', hFlush, hLast⟩
      · have hNot := hIo e ({ session with primary := state.1 }, state.2) (by
          simp only [append_eq, hOk, hAlways, if_true, hFlush])
        rw [hFails] at hNot
        cases hNot
      · refine Or.inr ⟨r, a'', m'', saved', ?_, hRefusal, hLast⟩
        simp only [append_eq, hOk, hAlways, if_true, hFlush]
    · refine Or.inr ⟨r, a', m', _, ?_, hRefusal, hNext⟩
      simp only [append_eq, hOk, hAlways, if_false]

/-- A session is open for writing, and its archive has stored what a ledger says and no
more; documents give back the metainfo of the ledger. -/
structure MirrorsLedger (l : Layout) (s : Settings) (dir : NodeId) (live : Ledger)
    (session : Session) (m : Machine) : Prop where
  archive : ∃ saved, Archive.FollowsLedger l s dir True True live saved session.primary m
  readsBack : live.readsBack = true
  status : session.status = .openForWrite
  codec : session.codec = .ofSettings s
  reference : ∀ a, session.reference = some a → a.mode = .read

theorem FollowsLog.mirrorsLedger (h : FollowsLog l s dir True log live saved session m)
    (hIntact : IsIntact log) (hReads : session.primary.tables.readsBack = true) :
    MirrorsLedger l s dir live session m where
  archive := ⟨saved, h.archive.weaken fun _ => hIntact⟩
  readsBack := by
    rw [← h.archive.tables.readsBack_eq]
    exact hReads
  status := h.status
  codec := h.codec
  reference := h.reference

theorem MirrorsLedger.isNumbered (h : MirrorsLedger l s dir live session m) : live.IsNumbered := by
  obtain ⟨saved, hFollows⟩ := h.archive
  exact hFollows.isValid.isNumbered

/-- The session after bytes were stored. -/
theorem MirrorsLedger.of_stored (h : MirrorsLedger l s dir live session m)
    {blob : Blob} {a' : Archive} {m' : Machine} {saved' : Ledger}
    (hRefusal : live.refusal? s blob = none)
    (hKept : blob.point.metainfo.firstNonFinite? = none → blob.point.readsBack = true)
    (hFollows : Archive.FollowsLedger l s dir True True
      (Archive.stored live blob.point blob.field blob.bytes)
      saved' a' m') :
    MirrorsLedger l s dir (live.storeAll [blob]) { session with primary := a' } m' where
  archive := ⟨saved', hFollows⟩
  readsBack := by
    have hRequest : (Archive.Request.append blob).IsKept := hKept
    have hNext := Archive.Request.readsBack_next (s := s) h.readsBack hRequest
    rw [Ledger.next_of_refusal? hRefusal] at hNext
    exact hNext
  status := h.status
  codec := h.codec
  reference := h.reference

/-- A write in a session is prepared as in its ledger. -/
theorem MirrorsLedger.prepare_eq (h : MirrorsLedger l s dir live session m) (x : Snapshot) :
    session.prepare x.point x.field x.buffer = live.prepared s session.enabled x := by
  obtain ⟨saved, hFollows⟩ := h.archive
  exact Session.prepare_eq hFollows h.status h.codec x

theorem Snapshot.call_eq (x : Snapshot) (session : Session) (m : Machine) :
    x.call.perform (session, m) =
      match session.prepare x.point x.field x.buffer with
      | .error e => (.failed e, session, m)
      | .ok none => (.wrote .skipped, session, m)
      | .ok (some bytes) => Reply.ofAction .wrote (append x.point x.field bytes) (session, m) := by
  simp only [call, Request.perform, Reply.ofAction, write_eq]
  cases session.prepare x.point x.field x.buffer with
  | error e => rfl
  | ok prepared => cases prepared <;> rfl

/-- A write ends as a ledger judges, and the session mirrors the ledger with what was
taken. -/
structure Judged (l : Layout) (s : Settings) (dir : NodeId) (live : Ledger) (enabled : Bool)
    (x : Snapshot) (answer : Reply × Session × Machine) : Prop where
  verdict : answer.1.verdict = (live.judge s enabled x).map Option.isSome
  mirrors : MirrorsLedger l s dir (live.storeAll (live.taken? s enabled x).toList)
    answer.2.1 answer.2.2
  enabled : answer.2.1.enabled = enabled

/-- A write that fails or is skipped. -/
theorem MirrorsLedger.judged_of_none (h : MirrorsLedger l s dir live session m) {reply : Reply}
    (hVerdict : reply.verdict = (live.judge s session.enabled x).map Option.isSome)
    (hTaken : live.taken? s session.enabled x = none) :
    Judged l s dir live session.enabled x (reply, session, m) :=
  ⟨hVerdict, by rw [hTaken]; exact h, rfl⟩

/-- A write whose bytes are known. -/
theorem MirrorsLedger.judged_append (h : MirrorsLedger l s dir live session m)
    (hPrepared : live.prepared s session.enabled x = .ok (some (x.payload s.endianness)))
    (hKept : x.point.metainfo.firstNonFinite? = none → x.point.readsBack = true)
    (hDigest : Set.InjOn (Checksum.compute s.checksum)
      {p | p ∈ live.payloads ++ [x.payload s.endianness]})
    (hIo : (Reply.ofAction .wrote (append x.point x.field (x.payload s.endianness))
      (session, m)).1.isIo = false) :
    Judged l s dir live session.enabled x
      (Reply.ofAction .wrote (append x.point x.field (x.payload s.endianness)) (session, m)) := by
  obtain ⟨saved, hFollows⟩ := h.archive
  have hCases := append_judged hFollows ⟨x.point, x.field, x.payload s.endianness⟩ hDigest
  dsimp only at hCases
  unfold Reply.ofAction at hIo ⊢
  rcases hCases (fun e state hError => by rw [hError] at hIo; exact hIo) with
    ⟨e, hError, hRefusal⟩ | ⟨r, a', m', saved', hOk, hRefusal, hNext⟩
  · have hJudge : live.judge s session.enabled x = .error e := by
      simp only [Ledger.judge, hPrepared, hRefusal]
    rw [hError]
    exact h.judged_of_none (by rw [hJudge]; rfl) (by rw [Ledger.taken?, hJudge])
  · have hJudge : live.judge s session.enabled x =
        .ok (some ⟨x.point, x.field, x.payload s.endianness⟩) := by
      simp only [Ledger.judge, hPrepared, hRefusal]
    rw [hOk]
    refine ⟨?_, ?_, rfl⟩
    · simp only [hJudge, Reply.verdict, Reply.record?, WriteOutcome.record?_ofAppended]
      rfl
    · rw [Ledger.taken?, hJudge]
      exact h.of_stored hRefusal hKept hNext

/-- Every write is judged by the ledger, unless the file system fails. -/
theorem MirrorsLedger.call (h : MirrorsLedger l s dir live session m)
    (hKept : x.point.metainfo.firstNonFinite? = none → x.point.readsBack = true)
    (hDigest : Set.InjOn (Checksum.compute s.checksum)
      {p | p ∈ live.payloads ++ [x.payload s.endianness]})
    (hIo : (x.call.perform (session, m)).1.isIo = false) :
    Judged l s dir live session.enabled x (x.call.perform (session, m)) := by
  rw [x.call_eq, h.prepare_eq] at hIo ⊢
  cases hPrepared : live.prepared s session.enabled x with
  | error e =>
      have hJudge : live.judge s session.enabled x = .error e := by
        simp only [Ledger.judge, hPrepared]
      exact h.judged_of_none (by rw [hJudge]; rfl) (by rw [Ledger.taken?, hJudge])
  | ok prepared =>
      cases prepared with
      | none =>
          have hJudge : live.judge s session.enabled x = .ok none := by
            simp only [Ledger.judge, hPrepared]
          exact h.judged_of_none (by rw [hJudge]; rfl) (by rw [Ledger.taken?, hJudge])
      | some bytes =>
          obtain rfl := Ledger.payload_of_prepared hPrepared
          rw [hPrepared] at hIo
          exact h.judged_append hPrepared hKept hDigest hIo

/-! ## Any number of writes -/

/-- Writes with different keys are judged by the ledger before the first of them. -/
theorem MirrorsLedger.serve_calls {calls : List Snapshot} (h : MirrorsLedger l s dir live session m)
    (hKeys : calls.Pairwise fun x y => (x.point == y.point) = true → x.field ≠ y.field)
    (hKept : ∀ x ∈ calls, x.point.metainfo.firstNonFinite? = none → x.point.readsBack = true)
    (hDigest : Set.InjOn (Checksum.compute s.checksum)
      ({p | p ∈ live.payloads} ∪ {p | ∃ x ∈ calls, p = x.payload s.endianness}))
    (hIntact : IsIntact (serve (calls.map Snapshot.call) (session, m)).1) :
    (serve (calls.map Snapshot.call) (session, m)).1.map (fun e => e.reply.verdict) =
        calls.map (fun x => (live.judge s session.enabled x).map Option.isSome) ∧
      MirrorsLedger l s dir (live.storeAll (calls.filterMap (live.taken? s session.enabled)))
        (serve (calls.map Snapshot.call) (session, m)).2.1
        (serve (calls.map Snapshot.call) (session, m)).2.2 := by
  induction calls generalizing live session m with
  | nil => exact ⟨rfl, h⟩
  | cons x calls ih =>
      obtain ⟨hFirst, hRest⟩ := List.pairwise_cons.1 hKeys
      obtain ⟨hHead, hTail⟩ := List.forall_mem_cons.1 hIntact
      have hIo : (x.call.perform (session, m)).1.isIo = false := by
        cases hFails : (x.call.perform (session, m)).1.isIo with
        | false => rfl
        | true => cases hHead hFails
      have hJudged := h.call (hKept x List.mem_cons_self) (hDigest.mono fun p hp => by
        rcases List.mem_append.1 hp with hOld | hNew
        · exact Or.inl hOld
        · exact Or.inr ⟨x, List.mem_cons_self, List.mem_singleton.1 hNew⟩) hIo
      -- what was taken has the key of `x`, which no later write has
      have hOther : ∀ y ∈ calls, ∀ b ∈ (live.taken? s session.enabled x).toList,
          (b.point == y.point) = true → b.field ≠ y.field := by
        intro y hy b hb hPoint
        obtain rfl := Ledger.eq_of_taken? (Option.mem_toList.1 hb)
        exact hFirst y hy hPoint
      have hNumbered := h.isNumbered
      have hAll : (x :: calls).filterMap (live.taken? s session.enabled) =
          (live.taken? s session.enabled x).toList ++
            calls.filterMap (live.taken? s session.enabled) := by
        cases hTaken : live.taken? s session.enabled x <;> simp [hTaken]
      have hPayloads : {p | p ∈ (live.storeAll (live.taken? s session.enabled x).toList).payloads} ∪
          {p | ∃ y ∈ calls, p = y.payload s.endianness} ⊆
          {p | p ∈ live.payloads} ∪ {p | ∃ y ∈ x :: calls, p = y.payload s.endianness} := by
        rintro p (hStored | ⟨y, hy, rfl⟩)
        · rcases Ledger.mem_payloads_of_taken hStored with hOld | rfl
          · exact Or.inl hOld
          · exact Or.inr ⟨x, List.mem_cons_self, rfl⟩
        · exact Or.inr ⟨y, List.mem_cons_of_mem _ hy, rfl⟩
      obtain ⟨hVerdicts, hLast⟩ := ih hJudged.mirrors hRest
        (fun y hy => hKept y (List.mem_cons_of_mem _ hy)) (hDigest.mono hPayloads) hTail
      rw [hJudged.enabled] at hVerdicts hLast
      constructor
      · refine List.cons_eq_cons.2 ⟨hJudged.verdict, hVerdicts.trans ?_⟩
        refine List.map_congr_left fun y hy => ?_
        rw [hNumbered.judge_storeAll (hOther y hy)]
      · rw [hAll, Ledger.storeAll_append]
        rw [List.filterMap_congr fun y hy => hNumbered.taken?_storeAll (hOther y hy)] at hLast
        exact hLast

/-! ## Closing and reading -/

/-- A session is closed, unless the file system fails, and its archive is read. -/
theorem MirrorsLedger.exists_close (h : MirrorsLedger l s dir live session m)
    (hIo : ∀ e state, close (session, m) = .error e state → e.isIo = false) :
    ∃ closed m' a, close (session, m) = .ok () (closed, m') ∧ Archive.openForRead l m' = .ok a m' ∧
      Archive.ReadsLedger l s live a m'.disk := by
  obtain ⟨saved, hFollows⟩ := h.archive
  obtain ⟨arena, -, hArena, -⟩ := hFollows.arena
  have hOpen : session.primary.isClosed = false := by simp [Archive.isClosed, hArena]
  rcases hFollows.flush_ok_or_io with ⟨e, state, hFlush, hFails⟩ | ⟨a', m', saved', hFlush, -⟩
  · obtain ⟨closed, hReference, -⟩ := closeReference_ok
      { session with status := .closed, primary := { state.1 with arena := none } } h.reference
      state.2
    have hNot := hIo e (closed, state.2) (by
      simp [close, h.status, onPrimary, Archive.close, hOpen, hFlush, hReference])
    rw [hFails] at hNot
    cases hNot
  · obtain ⟨closed, hReference, -⟩ := closeReference_ok
      { session with status := .closed, primary := { a' with arena := none } } h.reference m'
    have hPrimary : Archive.close (session.primary, m) =
        .ok () ({ a' with arena := none }, m') := by
      simp [Archive.close, hOpen, hFlush]
    obtain ⟨kept, -, hSame, -, file, data, hKeeps, -⟩ := hFollows.close_ok hPrimary
    rw [hSame trivial trivial] at hKeeps
    obtain ⟨a, hRead, hReads⟩ :=
      Archive.openForRead_of_readsBack hFollows.usable hKeeps h.readsBack
    refine ⟨closed, m', a, ?_, hRead, hReads⟩
    simp only [close, h.status, reduceCtorEq, if_false, onPrimary, hPrimary, hReference]

/-- The file system does not fail while a session is given some writes and is closed. -/
structure IsUndisturbed (calls : List Snapshot) (session : Session) (m : Machine) : Prop where
  serve : IsIntact (serve (calls.map Snapshot.call) (session, m)).1
  close : ∀ e state, close (Session.serve (calls.map Snapshot.call) (session, m)).2 =
    .error e state → e.isIo = false

/-- A machine without failures does not disturb writes that it has room for. -/
theorem ServesView.isUndisturbed {id : ArchiveId} {createdAt : String} {view : View}
    {calls : List Snapshot} (hPlain : l.HasPlainNames)
    (h : ServesView l s dir id createdAt view session m) (hCalm : m.IsCalm)
    (hWork : Workable s session.durability id createdAt m.environment view
      (calls.map Snapshot.call)) : IsUndisturbed calls session m := by
  obtain ⟨session', m', hServe, hServed, hWorld, -⟩ := h.serve hPlain hCalm hWork
  obtain ⟨closed, m'', -, hClose, -⟩ := hServed.close hPlain
    (fun n => by rw [hWorld]; exact hCalm n) (hWorld ▸ hWork.writable _ View.after_mem_flushed)
  refine ⟨?_, fun e state hError => ?_⟩
  · rw [hServe]
    exact View.isIntact_answers session.durability
  · rw [hServe, hClose] at hError
    cases hError

/-- A session that is given writes with different keys, in any order, is closed, and its
archive is read. -/
theorem MirrorsLedger.serve_close {calls order : List Snapshot}
    (h : MirrorsLedger l s dir live session m) {directory stem : String}
    (hLayout : Layout.make directory stem = .ok l)
    (hKeys : calls.Pairwise fun x y => (x.point == y.point) = true → x.field ≠ y.field)
    (hKept : ∀ x ∈ calls, x.point.metainfo.firstNonFinite? = none → x.point.readsBack = true)
    (hDigest : Set.InjOn (Checksum.compute s.checksum)
      ({p | p ∈ live.payloads} ∪ {p | ∃ x ∈ calls, p = x.payload s.endianness}))
    (hOrder : calls.Perm order) (hFiles : IsUndisturbed order session m) {reader : Config}
    (hReader : reader.validate = .ok ()) :
    ∃ closed a m₁ durability,
      (serve (order.map Snapshot.call) (session, m)).1.map (fun e => e.reply.verdict) =
        order.map (fun x => (live.judge s session.enabled x).map Option.isSome) ∧
      close (serve (order.map Snapshot.call) (session, m)).2 = .ok () (closed, m₁) ∧
      openWith directory stem .read none reader m₁ = .ok (ofArchives a none durability) m₁ ∧
      Archive.ReadsLedger l s (live.storeAll (order.filterMap (live.taken? s session.enabled))) a
        m₁.disk := by
  have hSymm : ∀ x y : Snapshot, ((x.point == y.point) = true → x.field ≠ y.field) →
      (y.point == x.point) = true → y.field ≠ x.field :=
    fun x y h hPoint hField => h (BEq.symm hPoint) hField.symm
  obtain ⟨hVerdicts, hEnd⟩ := h.serve_calls ((hOrder.pairwise_iff @hSymm).1 hKeys)
    (fun x hx => hKept x (hOrder.mem_iff.2 hx)) (by simpa only [hOrder.mem_iff] using hDigest)
    hFiles.serve
  obtain ⟨closed, m₁, a, hClosed, hRead, hArchive⟩ := hEnd.exists_close hFiles.close
  obtain ⟨durability, hOpened⟩ := openWith_read_eq hLayout hReader hRead
  exact ⟨closed, a, m₁, durability, hVerdicts, hClosed, hOpened, hArchive⟩

/-! ## Two orders -/

section Orders

variable {directory stem : String} {start m₀ : Machine} {opened : Session} {config : Config}
  {reference : Option String} {earlier : List Visit} {visited : List Visited}

/-- A session that is opened after others, if there were any, follows their log. -/
theorem exists_follows (hSettings : ∀ v ∈ earlier, v.config.settings = .ok s)
    (hConfig : config.settings = .ok s) (hLayout : Layout.make directory stem = .ok l)
    (hWell : start.disk.WellFormed) (hVacant : l.IsVacant start)
    (hBuilt : ∀ v ∈ earlier, ∀ r ∈ v.requests, r.IsBuilt)
    (hEarlier : runAll directory stem earlier start = some visited)
    (hKept : ∀ v ∈ visited, v.session.primary.tables.readsBack = true)
    (hDigest : Set.InjOn (Checksum.compute s.checksum) (written s.endianness (logOf visited)))
    (hOpen : openWith directory stem .write reference config (machineAfter start visited) =
      .ok opened m₀) :
    ∃ dir live, FollowsLog l s dir True (logOf visited) live live opened m₀ := by
  obtain ⟨settings, a, other, durability, hSame, hReference, hArchive, rfl⟩ :=
    openWith_ok hLayout hOpen
  obtain ⟨-, hOther⟩ := openReference_ok hReference
  obtain rfl : s = settings := Except.ok.inj (hConfig.symm.trans hSame)
  -- the archive is new, or it is what the sessions before have left
  cases earlier with
  | nil =>
      cases hEarlier
      obtain ⟨dir, hFollows, -, -⟩ :=
        Archive.openForWrite_of_isVacant (Layout.hasPlainNames_of_make hLayout) hWell hVacant
          hArchive
      exact ⟨dir, _, followsLog_ofArchives durability hFollows hOther (Ledger.accounts_empty s)
        fun _ => isExact_nil s⟩
  | cons first later =>
      obtain ⟨dir, kept, hRests, hReads⟩ :=
        archiveAtRest_of_runAll (hSettings first List.mem_cons_self)
        hLayout hWell hVacant hBuilt hEarlier hKept hDigest
      obtain ⟨file, data, hKeeps, -⟩ := hRests.keeps
      rcases Archive.openForWrite_cases hRests.usable hKeeps hReads s config.syncData with
        ⟨e, m', hError, -⟩ | ⟨a', m', -, hOk, -, hFollows, -⟩
      · cases hError.symm.trans hArchive
      · cases hOk.symm.trans hArchive
        exact ⟨dir, kept,
          followsLog_ofArchives durability hFollows hOther hRests.accounts hRests.answers⟩

/-- Writes with different keys commute.  Take a session that was opened for writing, on a
new archive or after `earlier` sessions, and was given some first requests, and a list of
writes to it whose keys are pairwise different, in any two orders.  Unless the file system
fails, every write ends in the same way in both, with the same error if it fails; both
sessions are closed; and the archives can be opened for reading, describe the same fields,
have the same keys, give back the same buffer, or error, and the same bytes for every key,
and have the same counts.

The digest has to tell the payloads apart, those of writes that fail included, and
documents have to give back the metainfo of the session and of the savepoints. -/
theorem writes_commute {visit : Visit}
    (hSettings : ∀ v ∈ earlier ++ [visit], v.config.settings = .ok s)
    (hLayout : Layout.make directory stem = .ok l) (hWell : start.disk.WellFormed)
    (hVacant : l.IsVacant start)
    (hBuilt : ∀ v ∈ earlier ++ [visit], ∀ r ∈ v.requests, r.IsBuilt)
    (hEarlier : runAll directory stem earlier start = some visited)
    (hOpen : openWith directory stem .write visit.reference visit.config
      (machineAfter start visited) = .ok opened m₀)
    {before : List Event} (hBefore : serve visit.requests (opened, m₀) = (before, session, m))
    (hIntact : IsIntact (logOf visited ++ before))
    (hReads : ∀ v ∈ visited, v.session.primary.tables.readsBack = true)
    (hLast : session.primary.tables.readsBack = true)
    {calls calls' : List Snapshot} (hPerm : calls.Perm calls')
    (hKeys : calls.Pairwise fun x y => (x.point == y.point) = true → x.field ≠ y.field)
    (hKept : ∀ x ∈ calls, x.point.metainfo.firstNonFinite? = none → x.point.readsBack = true)
    (hDigest : Set.InjOn (Checksum.compute s.checksum)
      (written s.endianness (logOf visited ++ before) ∪
        {p | ∃ x ∈ calls, p = x.payload s.endianness}))
    (hFiles : IsUndisturbed calls session m) (hFiles' : IsUndisturbed calls' session m)
    {reader : Config} (hReader : reader.validate = .ok ()) :
    ∃ verdict : Snapshot → Except Error Bool, ∃ closed closed' reading reading' m₁ m₁',
      (serve (calls.map Snapshot.call) (session, m)).1.map (fun e => e.reply.verdict) =
        calls.map verdict ∧
      (serve (calls'.map Snapshot.call) (session, m)).1.map (fun e => e.reply.verdict) =
        calls'.map verdict ∧
      close (serve (calls.map Snapshot.call) (session, m)).2 = .ok () (closed, m₁) ∧
      close (serve (calls'.map Snapshot.call) (session, m)).2 = .ok () (closed', m₁') ∧
      openWith directory stem .read none reader m₁ = .ok reading m₁ ∧
      openWith directory stem .read none reader m₁' = .ok reading' m₁' ∧
      reading.AnswersAs m₁.disk reading' m₁'.disk := by
  have hVisit : visit ∈ earlier ++ [visit] := List.mem_append_right _ (List.mem_singleton.2 rfl)
  have hWritten := hDigest.mono Set.subset_union_left
  obtain ⟨dir, live₀, hFirst⟩ := exists_follows
    (fun v hv => hSettings v (List.mem_append_left _ hv)) (hSettings visit hVisit) hLayout hWell
    hVacant (fun v hv => hBuilt v (List.mem_append_left _ hv)) hEarlier hReads
    (hWritten.mono (written_append_left _ _ _)) hOpen
  obtain ⟨live, saved, hServed, -⟩ :=
    hFirst.serve (hBuilt visit hVisit) (by rw [hBefore]; exact hWritten)
  rw [hBefore] at hServed
  have hMirrors := hServed.mirrorsLedger hIntact hLast
  have hPayloads : {p | p ∈ live.payloads} ∪ {p | ∃ x ∈ calls, p = x.payload s.endianness} ⊆
      written s.endianness (logOf visited ++ before) ∪
        {p | ∃ x ∈ calls, p = x.payload s.endianness} :=
    Set.union_subset_union_left _ fun p hp => hServed.accounts.mem_payloads hp
  obtain ⟨closed, a, m₁, d, hVerdicts, hClosed, hOpened, hArchive⟩ :=
    hMirrors.serve_close hLayout hKeys hKept (hDigest.mono hPayloads) (.refl calls) hFiles hReader
  obtain ⟨closed', a', m₁', d', hVerdicts', hClosed', hOpened', hArchive'⟩ :=
    hMirrors.serve_close hLayout hKeys hKept (hDigest.mono hPayloads) hPerm hFiles' hReader
  -- the same writes are taken in both orders, so the ledgers are alike
  have hAlike := Ledger.alike_storeAll hMirrors.isNumbered
    (hPerm.filterMap (live.taken? s session.enabled))
  exact ⟨_, closed, closed', _, _, m₁, m₁', hVerdicts, hVerdicts', hClosed, hClosed', hOpened,
    hOpened', answersAs_of_alike hArchive hArchive' hAlike d d'⟩

end Orders

namespace Sample

/-- Two snapshots with the same values, and one that is too long. -/
def calls : List Snapshot :=
  [⟨step 0, "T", .int32 [1, 2]⟩, ⟨step 1, "T", .int32 [1, 2]⟩, ⟨step 2, "T", .int32 [3, 4, 5]⟩]

/-- A session that registers the field, before the writes. -/
def registering : Visit := ⟨config, none, [.registerField temperature]⟩

theorem isBuilt_registering : ∀ r ∈ registering.requests, r.IsBuilt :=
  List.forall_mem_singleton.2 isBuilt_temperature

/-- The ledger that describes the field. -/
def described : View := View.after settings ⟨true, .empty⟩ registering.requests

theorem workable_registering : Workable settings .standard default "" start.environment
    ⟨true, .empty⟩ registering.requests :=
  workable_of_short isBuilt_registering (by decide +kernel) (by decide +kernel)
    (by decide +kernel)

theorem workable_calls {order : List Snapshot} (h : order = calls ∨ order = calls.reverse) :
    Workable settings .standard default "" start.environment described
      (order.map Snapshot.call) := by
  refine workable_of_short (fun r hr => ?_) ?_ ?_ ?_
  · obtain ⟨x, -, rfl⟩ := List.mem_map.1 hr
    trivial
  all_goals
    rcases h with rfl | rfl
    all_goals decide +kernel

/-- The digest tells the writes apart, and nothing was stored before them. -/
theorem injOn_calls : Set.InjOn (Checksum.compute settings.checksum)
    (written settings.endianness
        (logOf [] ++ View.answers settings .standard ⟨true, .empty⟩ registering.requests) ∪
      {p | ∃ x ∈ calls, p = x.payload settings.endianness}) := by
  have hDistinct : ∀ x ∈ calls, ∀ y ∈ calls,
      Checksum.compute .xxh3 (x.payload .little) = Checksum.compute .xxh3 (y.payload .little) →
        x.payload .little = y.payload .little := by
    decide +kernel
  have hNone : written settings.endianness
      (logOf [] ++ View.answers settings .standard ⟨true, .empty⟩ registering.requests) = ∅ := by
    refine Set.eq_empty_of_forall_notMem fun p hp => ?_
    obtain ⟨x, hx, -⟩ := hp
    simp [registering, View.answers, logOf, attempted, Event.attempted?, Request.snapshot?] at hx
  rw [hNone, Set.empty_union]
  rintro p ⟨x, hx, rfl⟩ q ⟨y, hy, rfl⟩ hSame
  exact hDistinct x hx y hy hSame

/-- Two writes with the same values and one that is refused, and the reverse. -/
theorem writes_commute_sample :
    ∃ opened m₀ session m verdict closed closed' reading reading' m₁ m₁',
    openWith "" "a" .write none config start = .ok opened m₀ ∧
      (serve registering.requests (opened, m₀)).2 = (session, m) ∧
      (serve (calls.map Snapshot.call) (session, m)).1.map (fun e => e.reply.verdict) =
        calls.map verdict ∧
      (serve (calls.reverse.map Snapshot.call) (session, m)).1.map (fun e => e.reply.verdict) =
        calls.reverse.map verdict ∧
      close (serve (calls.map Snapshot.call) (session, m)).2 = .ok () (closed, m₁) ∧
      close (serve (calls.reverse.map Snapshot.call) (session, m)).2 = .ok () (closed', m₁') ∧
      openWith "" "a" .read none .standard m₁ = .ok reading m₁ ∧
      openWith "" "a" .read none .standard m₁' = .ok reading' m₁' ∧
      reading.AnswersAs m₁.disk reading' m₁'.disk := by
  have hPlain := Layout.hasPlainNames_of_make layout_eq
  obtain ⟨a, m₀, hCreate, hId, hCreatedAt⟩ := exists_openForWrite
  obtain ⟨dir, hArchive⟩ :=
    Archive.servesLedger_of_isVacant hPlain Disk.wellFormed_empty isVacant hCreate
  obtain ⟨-, -, -, hWorld⟩ :=
    Archive.openForWrite_of_isVacant hPlain Disk.wellFormed_empty isVacant hCreate
  rw [hId, hCreatedAt] at hArchive
  have hOpen : openWith "" "a" .write none config start = .ok (ofArchives a none .standard) m₀ :=
    openWith_eq layout_eq settings_eq (by rfl) hCreate
  obtain ⟨session, m, hServe, hServed, hWorld', hDurability⟩ :=
    (servesView_ofArchives hArchive .standard).serve hPlain (fun n => by rw [hWorld]; rfl)
      (hWorld ▸ workable_registering)
  have hStart : m.environment = start.environment := hWorld'.trans hWorld
  have hUndisturbed : ∀ order, order = calls ∨ order = calls.reverse →
      IsUndisturbed order session m := by
    intro order hOrder
    refine hServed.isUndisturbed hPlain (fun n => by rw [hStart]; rfl) ?_
    rw [hStart, hDurability]
    exact workable_calls hOrder
  have hIntact : IsIntact (logOf [] ++ View.answers settings .standard ⟨true, .empty⟩
      registering.requests) := View.isIntact_answers .standard
  have hReads : session.primary.tables.readsBack = true := by
    rw [hServed.readsBack_eq]
    decide +kernel
  have hSettings : ∀ v ∈ [] ++ [registering], v.config.settings = .ok settings :=
    List.forall_mem_singleton.2 settings_eq
  have hEarlier : runAll "" "a" [] start = some [] := rfl
  have hKept : ∀ x ∈ calls, x.point.readsBack = true := by decide +kernel
  obtain ⟨verdict, closed, closed', reading, reading', m₁, m₁', hBoth⟩ :=
    writes_commute hSettings layout_eq Disk.wellFormed_empty isVacant
      (List.forall_mem_singleton.2 isBuilt_registering) hEarlier hOpen hServe hIntact
      (fun v hv => by cases hv) hReads (List.reverse_perm calls).symm (by decide +kernel)
      (fun x hx _ => hKept x hx) injOn_calls (hUndisturbed _ (Or.inl rfl))
      (hUndisturbed _ (Or.inr rfl)) validate_standard
  exact ⟨_, m₀, session, m, verdict, closed, closed', reading, reading', m₁, m₁', hOpen,
    congrArg Prod.snd hServe, hBoth⟩

end Sample
end Session
end FieldArchive

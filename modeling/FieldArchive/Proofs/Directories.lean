import FieldArchive.Proofs.Disk.Machine
import FieldArchive.Proofs.Layout

/-!
# Making the directory of an archive

The directories on the way to an archive are made one after the other, and each only where
nothing is and while the text of the directory leads nowhere.  Whatever holds of one such
step and composes holds of all of them, also if a call fails in between
(`Layout.relates_createDirectory`).
-/

namespace FieldArchive

variable {l : Layout} {dir : NodeId} {d : Disk} {m : Machine}

/-! ## Walking -/

namespace Disk

theorem walk_append (d : Disk) (trail : Trail) (front back : List String) :
    d.walk trail (front ++ back) =
      match d.walk trail front with
      | .error e => .error e
      | .ok next => d.walk next back := by
  induction front generalizing trail with
  | nil => rfl
  | cons name front ih =>
      rw [List.cons_append, walk, walk]
      cases d.enter trail name with
      | error e => rfl
      | ok next => exact ih next

theorem free_of_enter {trail : Trail} {name : String} (h : d.enter trail name = .error .notFound) :
    d.entries.get? ⟨here trail, name⟩ = none := by
  unfold enter at h
  split at h
  · cases h
  · split at h
    · cases h
    · cases hLookup : d.lookup ⟨here trail, name⟩ with
      | ok id =>
          rw [hLookup] at h
          dsimp only at h
          split at h <;> cases h
      | error e =>
          rw [hLookup] at h
          cases h
          unfold lookup at hLookup
          split at hLookup
          · cases hLookup
          · split at hLookup
            · cases hLookup
            · assumption

end Disk

/-- The text of a directory that leads somewhere can be walked with the `.` at its end. -/
theorem Layout.LeadsTo.exists_walk (h : l.LeadsTo d dir) :
    ∃ trail, d.walk [] (Path.names l.directory) = .ok trail := by
  obtain ⟨trail, hWalk, -⟩ := h
  refine ⟨trail, ?_⟩
  rw [Path.names_eq]
  split
  · rw [Disk.walk_append, hWalk]
    rfl
  · exact hWalk

/-! ## Making directories -/

/-- A relation of machines holds for whoever makes directories on the way to an archive. -/
structure Layout.AllowsDirectories (l : Layout) (R : Machine → Machine → Prop) : Prop where
  trans : ∀ {m₁ m₂ m₃}, R m₁ m₂ → R m₂ m₃ → R m₁ m₃
  last : ∀ {m m'}, R m m' → R m' m'
  tick : ∀ {m}, R m m → R m m.tick
  make : ∀ {m : Machine} {slot}, R m m → m.disk.entries.get? slot = none →
    (∀ dir, ¬ l.LeadsTo m.disk dir) → R m (m.tick.record (.makeDirectory slot))

namespace Machine

variable {R : Machine → Machine → Prop}

/-- The names in front of those that are left lead to the trail. -/
theorem relates_makeDirectoriesFrom (hAllows : l.AllowsDirectories R) (h : R m m)
    {front names : List String} {trail : Trail} (hNames : Path.names l.directory = front ++ names)
    (hFront : m.disk.walk [] front = .ok trail) (made : Bool) :
    Relates R m (makeDirectoriesFrom trail made names) fun _ _ => True := by
  induction names generalizing front trail made m with
  | nil => exact relates_pure h trivial
  | cons name rest ih =>
      by_cases hDot : rest = ["."]
      · subst hDot
        rw [makeDirectoriesFrom]
        refine (relates_inspect h _).bind hAllows.trans ?_
        rintro next m₁ - ⟨-, rfl⟩
        exact relates_pure h trivial
      · have hNames' : Path.names l.directory = (front ++ [name]) ++ rest := by
          rw [hNames, List.append_assoc, List.singleton_append]
        have hNext : ∀ {d : Disk} {next : Trail}, d.walk [] front = .ok trail →
            d.enter trail name = .ok next → d.walk [] (front ++ [name]) = .ok next := by
          intro d next hWalk hEnter
          simp only [Disk.walk_append, hWalk, Disk.walk, hEnter]
        rw [makeDirectoriesFrom.eq_3 _ _ _ _ hDot]
        refine (relates_inspect h _).bind hAllows.trans ?_
        rintro entered m₁ - ⟨hEntered, rfl⟩
        have hEnter := Except.ok.inj hEntered
        split
        · exact ih h hNames' (hNext hFront hEnter) _
        · -- while a name leads nowhere the text does not either
          have hNowhere : ∀ dir, ¬ l.LeadsTo m₁.disk dir := by
            intro dir hLeads
            obtain ⟨last, hWalk⟩ := hLeads.exists_walk
            simp only [hNames, Disk.walk_append, hFront, Disk.walk, hEnter] at hWalk
            cases hWalk
          have hFree := Disk.free_of_enter hEnter
          refine (relates_commit (hAllows.tick h) (hAllows.make h hFree hNowhere)
            (by rintro _ _ ⟨⟩)).bind hAllows.trans ?_
          rintro u m₂ hMade rfl
          refine (relates_inspect (hAllows.last hMade) _).bind hAllows.trans ?_
          rintro next m₃ - ⟨hInto, rfl⟩
          have hKeep := Disk.keepsDirectories_addNode hFree .directory
          exact ih (hAllows.last hMade) hNames' (hNext (Disk.walk_mono hKeep hFront) hInto) _
        · exact relates_throw h _
        · exact relates_throw h _

end Machine

theorem Layout.relates_createDirectory {R : Machine → Machine → Prop}
    (hAllows : l.AllowsDirectories R) (h : R m m) :
    Machine.Relates R m l.createDirectory fun _ _ => True := by
  refine Machine.Relates.adaptExcept ?_ _
  unfold Machine.makeDirectories
  split
  · exact Machine.relates_pure h trivial
  · refine (Machine.relates_inspect h _).bind hAllows.trans ?_
    rintro names m₁ - ⟨hNames, rfl⟩
    obtain rfl := Disk.eq_names_of_namesOf hNames
    exact Machine.relates_makeDirectoriesFrom hAllows h
      (show Path.names l.directory = [] ++ Path.names l.directory from rfl) rfl _

/-- What holds of whoever makes directories holds if the directory could be made. -/
theorem Layout.AllowsDirectories.of_createDirectory {R : Machine → Machine → Prop} {m' : Machine}
    (hAllows : l.AllowsDirectories R) (h : R m m) (hOk : l.createDirectory m = .ok () m') :
    R m m' := by
  have hRelated := (relates_createDirectory hAllows h).related
  rwa [hOk] at hRelated

end FieldArchive

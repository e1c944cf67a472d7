import FieldArchive.Disk.Basic
import Mathlib.Data.List.Basic

/-!
# Names in a directory

The text of a plain name inside a directory has the names of the directory and
then the plain name, whatever the text of the directory looks like.
-/

namespace FieldArchive.Path

/-- The names in a text, with all `.` among them. -/
def parts (text : String) : List String :=
  ((text.toList.splitOn '/').map String.ofList).filter fun name => name != ""

/-- The names in a text that lead somewhere. -/
def proper (text : String) : List String := (parts text).filter fun name => name != "."

/-- A name that stands for a file: it holds no slash and is not one of the names
that every directory has. -/
structure IsPlain (name : String) : Prop where
  slash : '/' ∉ name.toList
  nonempty : name ≠ ""
  ne_here : name ≠ "."
  ne_up : name ≠ ".."

theorem names_eq (text : String) :
    names text = if (parts text).getLast? = some "." then proper text ++ ["."] else proper text :=
  rfl

theorem splitOn_of_not_mem {cs : List Char} (h : '/' ∉ cs) : cs.splitOn '/' = [cs] := by
  refine List.splitOnP_eq_singleton fun c hc => ?_
  rw [beq_eq_false_iff_ne]
  rintro rfl
  exact h hc

theorem splitOn_append_slash (cs ds : List Char) :
    (cs ++ '/' :: ds).splitOn '/' = cs.splitOn '/' ++ ds.splitOn '/' :=
  List.splitOnP_append_cons cs ds rfl

/-- A slash between two texts separates their names. -/
theorem parts_slash {front : List Char} {name : String} (h : IsPlain name) :
    parts (String.ofList (front ++ '/' :: name.toList)) =
      parts (String.ofList front) ++ [name] := by
  simp only [parts, String.toList_ofList, splitOn_append_slash, splitOn_of_not_mem h.slash,
    List.map_append, List.filter_append]
  simp [h.nonempty]

/-- A slash at the end adds no name. -/
theorem parts_slash_nil (front : List Char) :
    parts (String.ofList (front ++ ['/'])) = parts (String.ofList front) := by
  simp only [parts, String.toList_ofList, splitOn_append_slash, List.splitOn_nil,
    List.map_append, List.filter_append]
  simp

theorem parts_plain {name : String} (h : IsPlain name) : parts name = [name] := by
  simp [parts, splitOn_of_not_mem h.slash, h.nonempty]

theorem parts_join {name : String} (h : IsPlain name) (directory : String) :
    parts (join directory name) = parts directory ++ [name] := by
  unfold join
  by_cases hEmpty : directory = ""
  · subst hEmpty
    rw [if_pos (by simp), String.empty_append, parts_plain h]
    rfl
  · by_cases hSlash : endsInSlash directory = true
    · rw [if_pos (by simp [hSlash])]
      obtain ⟨front, hFront⟩ : ∃ front, directory.toList = front ++ ['/'] := by
        rw [endsInSlash, beq_iff_eq, List.getLast?_eq_some_iff] at hSlash
        exact hSlash
      have hText : directory = String.ofList (front ++ ['/']) := by
        rw [← hFront, String.ofList_toList]
      have hJoined : directory ++ name = String.ofList (front ++ '/' :: name.toList) := by
        rw [hText]
        apply String.toList_inj.1
        simp
      rw [hJoined, parts_slash h, hText, parts_slash_nil]
    · rw [if_neg (by simp [hEmpty, hSlash])]
      have hJoined : directory ++ "/" ++ name =
          String.ofList (directory.toList ++ '/' :: name.toList) := by
        apply String.toList_inj.1
        simp
      rw [hJoined, parts_slash h, String.ofList_toList]

/-- The names of a plain name inside a directory. -/
theorem names_join {name : String} (h : IsPlain name) (directory : String) :
    names (join directory name) = proper directory ++ [name] := by
  have hLast : (parts directory ++ [name]).getLast? = some name := by simp
  rw [names_eq, parts_join h, hLast, if_neg (by simpa using h.ne_here), proper, parts_join h,
    List.filter_append, proper]
  simp [h.ne_here]

theorem endsInSlash_join {name : String} (h : IsPlain name) (directory : String) :
    endsInSlash (join directory name) = false := by
  have hChars : name.toList ≠ [] := by
    simpa using h.nonempty
  have hLast : ∀ front : List Char, ((front ++ name.toList).getLast? == some '/') = false := by
    intro front
    rw [List.getLast?_append_of_ne_nil _ hChars, beq_eq_false_iff_ne]
    intro hSlash
    exact h.slash (List.mem_of_getLast? hSlash)
  unfold endsInSlash join
  split
  · rw [String.toList_append]
    exact hLast _
  · rw [String.toList_append]
    exact hLast _

end FieldArchive.Path

import Eds.Util.Crdb
import Eds.Util.SchemaLoad

/-!
# Paths

A path is the name of its directory and a last part without a slash.  Joined to the directory of a
path, a name stands beside it: the two have one directory, and each its own last part.
-/

namespace Eds
namespace Util

/-- `os.path.basename` of a string. -/
def fileName (path : String) : String := String.ofList (basename path.toList)

/-- Without the slashes at the end, unless there is nothing else. -/
def trimSlashes (head : List Char) : List Char :=
  if head.all (· = '/') then head else head.rdropWhile (· = '/')

/-- `os.path.dirname` -/
def dirname (path : String) : String := String.ofList (trimSlashes (path.toList.rdropWhile (· ≠ '/')))

section Parts

variable {path name : List Char}

theorem slash_notMem_basename (path : List Char) : '/' ∉ basename path := by
  intro h
  have hall := List.mem_rtakeWhile_imp h
  simp at hall

theorem slash_notMem_fileName (path : String) : '/' ∉ (fileName path).toList := by
  rw [fileName, String.toList_ofList]
  exact slash_notMem_basename path.toList

theorem rdropWhile_name (h : '/' ∉ name) : (path ++ '/' :: name).rdropWhile (· ≠ '/') = path ++ ['/'] := by
  have hname : ∀ c ∈ name.reverse, decide (c ≠ '/') = true := by
    intro c hc
    exact decide_eq_true fun hslash => h (hslash ▸ List.mem_reverse.mp hc)
  rw [List.rdropWhile, List.reverse_append, List.reverse_cons, List.append_assoc, List.dropWhile_append_of_pos hname]
  simp

theorem rdropWhile_all {p : Char → Bool} (h : name.all p = true) : name.rdropWhile p = [] := by
  rw [List.rdropWhile_eq_nil_iff]
  exact List.all_eq_true.mp h

end Parts

/-- A directory as `dirname` writes it. -/
def Plain (dir : String) : Prop := dir.toList.getLast? = some '/' → dir.toList.all (· = '/') = true

theorem plain_dirname (path : String) : Plain (dirname path) := by
  unfold dirname Plain
  rw [String.toList_ofList]
  intro hlast
  unfold trimSlashes at hlast ⊢
  split at hlast
  · next h =>
    rw [if_pos h]
    exact h
  · exfalso
    have hne := List.ne_nil_of_mem (List.mem_of_getLast? hlast)
    rw [List.getLast?_eq_some_getLast hne] at hlast
    have hnot := List.rdropWhile_last_not _ _ hne
    rw [Option.some.inj hlast] at hnot
    exact hnot (by decide)

section Joined

variable {dir name : String}

/-- A joined path, written with the slash between. -/
theorem pathJoin_eq (h : '/' ∉ name.toList) :
    (Schema.pathJoin dir name).toList = dir.toList ++ name.toList ∧
        (dir.toList = [] ∨ dir.toList.getLast? = some '/') ∨
      (Schema.pathJoin dir name).toList = dir.toList ++ '/' :: name.toList ∧ dir.toList ≠ [] ∧
        dir.toList.getLast? ≠ some '/' := by
  have hhead : ¬name.toList.head? = some '/' := fun hhead => h (List.mem_of_head? hhead)
  rw [Schema.pathJoin, if_neg hhead]
  by_cases hdir : dir = "" ∨ dir.toList.getLast? = some '/'
  · rw [if_pos hdir, String.toList_append]
    refine .inl ⟨rfl, hdir.imp_left fun hempty => ?_⟩
    rw [hempty]
    rfl
  · rw [if_neg hdir]
    obtain ⟨hne, hlast⟩ := not_or.mp hdir
    refine .inr ⟨by simp, fun hnil => hne ?_, hlast⟩
    exact String.toList_inj.mp hnil

theorem fileName_pathJoin (h : '/' ∉ name.toList) : fileName (Schema.pathJoin dir name) = name := by
  have hbase : basename (Schema.pathJoin dir name).toList = name.toList := by
    rcases pathJoin_eq h with ⟨htext, hdir⟩ | ⟨htext, _, _⟩
    · rw [htext]
      refine basename_append (hdir.imp_right fun hlast => ?_) h
      obtain ⟨front, hfront⟩ := List.getLast?_eq_some_iff.mp hlast
      exact ⟨front, hfront⟩
    · rw [htext, List.append_cons]
      exact basename_append (.inr ⟨dir.toList, rfl⟩) h
  rw [fileName, hbase, String.ofList_toList]

theorem dirname_pathJoin (hdir : Plain dir) (h : '/' ∉ name.toList) :
    dirname (Schema.pathJoin dir name) = dir := by
  unfold dirname trimSlashes
  rcases @pathJoin_eq dir name h with ⟨htext, hnil | hlast⟩ | ⟨htext, hne, hlast⟩
  · have hall : name.toList.all (· ≠ '/') = true :=
      List.all_eq_true.mpr fun c hc => decide_eq_true fun hslash => h (hslash ▸ hc)
    rw [htext, hnil, List.nil_append, rdropWhile_all hall, if_pos (by rfl)]
    exact String.toList_inj.mp (by rw [hnil]; rfl)
  · obtain ⟨front, hfront⟩ := List.getLast?_eq_some_iff.mp hlast
    rw [htext, hfront, ← List.append_cons, rdropWhile_name h, ← hfront, if_pos (hdir hlast),
      String.ofList_toList]
  · have hslash : ∃ c ∈ dir.toList, ¬decide (c = '/') = true := by
      refine ⟨_, List.getLast_mem hne, fun heq => hlast ?_⟩
      rw [List.getLast?_eq_some_getLast hne, of_decide_eq_true heq]
    have hall : ¬(dir.toList ++ ['/']).all (· = '/') = true := by
      obtain ⟨c, hc, hnot⟩ := hslash
      intro hall
      exact hnot (List.all_eq_true.mp hall c (List.mem_append_left _ hc))
    have hkept : (dir.toList ++ ['/']).rdropWhile (· = '/') = dir.toList := by
      rw [List.rdropWhile_concat_pos _ _ _ (by decide), List.rdropWhile_eq_self_iff]
      intro hne' hlast'
      exact hlast (by rw [List.getLast?_eq_some_getLast hne', of_decide_eq_true hlast'])
    rw [htext, rdropWhile_name h, if_neg hall, hkept, String.ofList_toList]

end Joined

end Util
end Eds

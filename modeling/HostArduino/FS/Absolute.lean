import HostArduino.FS.Directories
import HostArduino.FS.FileSystem

namespace HostArduino.fs

open Lib

/-- The path from the top through these names. -/
def absolute (parts : List Name) : Path :=
  parts.flatMap (slash :: ·)

/-- What an operation takes a path for, from the file system's own directory. -/
def target (path : Option Path) : List Name :=
  if (components (path.getD [])).contains [dot, dot] then [] else names (path.getD [])

theorem proper_of_mem_target {path : Option Path} {part : Name} (hpart : part ∈ target path) : Proper part := by
  rw [target] at hpart
  split at hpart
  · cases hpart
  · rename_i hsafe
    exact proper_of_mem_names (fun hmem => hsafe (List.contains_iff_mem.mpr hmem)) hpart

theorem sanitizePath_target (path : Option Path) : sanitizePath path = [slash].intercalate (target path) := by
  simp only [sanitizePath_eq, target, List.contains_iff_mem]
  split <;> rfl

theorem sanitizePath_eq_nil_iff (path : Option Path) : sanitizePath path = [] ↔ target path = [] := by
  rw [sanitizePath_target]
  constructor
  · intro hnil
    by_contra hne
    exact intercalate_ne_nil (fun part hpart => (proper_of_mem_target hpart).isPiece) hne hnil
  · intro hnil
    rw [hnil]
    rfl

section Absolute

variable {parts more : List Name}

theorem absolute_append (parts more : List Name) : absolute (parts ++ more) = absolute parts ++ absolute more :=
  List.flatMap_append

theorem absolute_ne_nil (hne : parts ≠ []) : absolute parts ≠ [] := by
  obtain ⟨part, rest, rfl⟩ := List.exists_cons_of_ne_nil hne
  exact List.cons_ne_nil _ _

theorem slash_intercalate (hne : parts ≠ []) : slash :: [slash].intercalate parts = absolute parts := by
  induction parts with
  | nil => exact absurd rfl hne
  | cons part rest ih =>
    cases rest with
    | nil => simp [absolute]
    | cons next rest =>
      rw [List.intercalate_cons_cons, List.append_assoc, List.singleton_append, ih (List.cons_ne_nil _ _)]
      rfl

theorem last_absolute (hproper : ∀ part ∈ parts, Proper part) (hne : parts ≠ []) :
    (absolute parts).getLast?.any isSeparator = false := by
  obtain ⟨front, part, rfl⟩ := (List.eq_nil_or_concat' parts).resolve_left hne
  have hpart := (hproper part (by simp)).isPiece
  obtain ⟨before, ch, rfl⟩ := (List.eq_nil_or_concat' part).resolve_left hpart.1
  have hlast : (absolute (front ++ [before ++ [ch]])).getLast? = some ch := by
    have hconcat : absolute (front ++ [before ++ [ch]]) = absolute front ++ slash :: before ++ [ch] := by
      simp [absolute]
    rw [hconcat, List.getLast?_concat]
  rw [hlast]
  exact hpart.2 ch (by simp)

theorem joinPath_absolute (hproper : ∀ part ∈ parts, Proper part) (hne : parts ≠ [])
    (hmore : ∀ part ∈ more, Proper part) (hne' : more ≠ []) :
    joinPath (absolute parts) ([slash].intercalate more) = absolute (parts ++ more) := by
  have hname := intercalate_ne_nil (x := slash) (fun part hpart => (hmore part hpart).isPiece) hne'
  have hlast : (absolute parts).getLast?.any isSeparator ≠ true := by simp [last_absolute hproper hne]
  rw [joinPath, if_neg (absolute_ne_nil hne), if_neg hname, if_neg hlast, List.append_assoc, List.singleton_append,
    slash_intercalate hne', absolute_append]

theorem directoryName_absolute {name : Name} (hname : Proper name) :
    directoryName (absolute (parts ++ [name])) = absolute parts := by
  have hpath : absolute (parts ++ [name]) = absolute parts ++ slash :: name := by simp [absolute]
  have hany : (absolute parts ++ slash :: name).any isSeparator = true := by simp [isSeparator_slash]
  have hreverse : (absolute parts ++ slash :: name).reverse = name.reverse ++ slash :: (absolute parts).reverse := by
    simp
  have hfree : ∀ ch ∈ name.reverse, (!isSeparator ch) = true := by
    intro ch hch
    rw [hname.isPiece.2 ch (List.mem_reverse.mp hch)]
    rfl
  rw [hpath, directoryName, if_pos hany, hreverse, List.dropWhile_append_of_pos hfree,
    List.dropWhile_cons_of_neg (by simp [isSeparator_slash])]
  exact List.reverse_reverse _

theorem one_separator {ch : UInt8} (hch : isSeparator ch = false) (rest : Path) :
    (slash :: ch :: rest).takeWhile isSeparator = [slash] ∧
      (slash :: ch :: rest).dropWhile isSeparator = ch :: rest := by
  have hstop : ¬isSeparator ch = true := by simp [hch]
  rw [List.takeWhile_cons_of_pos isSeparator_slash, List.takeWhile_cons_of_neg hstop,
    List.dropWhile_cons_of_pos isSeparator_slash, List.dropWhile_cons_of_neg hstop]
  exact ⟨rfl, rfl⟩

/-- The loop walks through a name without making anything. -/
theorem wayFrom_append {part : Name} (hpart : ∀ ch ∈ part, isSeparator ch = false) (path rest current : Path) :
    wayFrom path (part ++ rest) current = wayFrom path rest (current ++ part) := by
  induction part generalizing current with
  | nil => rw [List.nil_append, List.append_nil]
  | cons ch part ih =>
    have hch : isSeparator ch ≠ true := by simp [hpart ch List.mem_cons_self]
    rw [List.cons_append, wayFrom, if_neg hch, ih fun c hc => hpart c (List.mem_cons_of_mem ch hc), List.append_assoc]
    rfl

/-- And makes what it has walked to when a name ends. -/
theorem wayFrom_absolute {path : Path} (hproper : ∀ part ∈ more, Proper part) (hne : parts ≠ []) :
    wayFrom path (absolute more) (absolute parts) =
      more.inits.map (fun front => absolute (parts ++ front)) ++ [path] := by
  induction more generalizing parts with
  | nil =>
    rw [absolute, List.flatMap_nil, wayFrom, if_neg (absolute_ne_nil hne)]
    simp
  | cons part more ih =>
    have hpart := (hproper part List.mem_cons_self).isPiece
    obtain ⟨ch, tail, rfl⟩ := List.exists_cons_of_ne_nil hpart.1
    obtain ⟨htake, hdrop⟩ := one_separator (hpart.2 ch List.mem_cons_self) (tail ++ absolute more)
    have hpath : absolute parts ++ [slash] ++ [ch] ++ tail = absolute (parts ++ [ch :: tail]) := by
      simp [absolute]
    have hcons : absolute ((ch :: tail) :: more) = slash :: ch :: (tail ++ absolute more) := rfl
    rw [hcons, wayFrom, if_pos isSeparator_slash, if_neg (absolute_ne_nil hne), htake, hdrop]
    dsimp only
    rw [if_neg (List.cons_ne_nil _ _), List.drop_one, List.tail_cons, List.take_one, List.head?_cons,
      Option.toList_some, wayFrom_append (fun c hc => hpart.2 c (List.mem_cons_of_mem ch hc)), hpath,
      ih (fun p hp => hproper p (List.mem_cons_of_mem _ hp)) (by simp)]
    simp [List.append_assoc]

/-- The directories that lead to an absolute path, and itself once more. -/
theorem way_absolute {part : Name} (hproper : ∀ name ∈ part :: more, Proper name) :
    way (absolute (part :: more)) = (more.inits.map (part :: ·) ++ [part :: more]).map absolute := by
  have hpart := (hproper part List.mem_cons_self).isPiece
  obtain ⟨ch, tail, rfl⟩ := List.exists_cons_of_ne_nil hpart.1
  obtain ⟨htake, hdrop⟩ := one_separator (hpart.2 ch List.mem_cons_self) (tail ++ absolute more)
  have hcons : absolute ((ch :: tail) :: more) = slash :: ch :: (tail ++ absolute more) := rfl
  have hfirst : [slash] ++ (ch :: tail) = absolute [ch :: tail] := by simp [absolute]
  rw [way, hcons, htake, hdrop, ← List.cons_append, wayFrom_append hpart.2, hfirst,
    wayFrom_absolute (fun p hp => hproper p (List.mem_cons_of_mem _ hp)) (List.cons_ne_nil _ _)]
  simp [hcons]

end Absolute

end HostArduino.fs

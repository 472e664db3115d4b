import HostArduino.Http.Text
import HostArduino.Lib.Leftmost
import HostArduino.Lib.While

namespace HostArduino.wstring

open http Lib

/-- `std::string::find` from a position. -/
def findFrom (value str : Text) (pos : Nat) : Option Nat :=
  if value.length < pos then none else (indexOfText (value.drop pos) str).map (pos + ·)

/-- `std::string::replace` of `count` bytes at `pos`. -/
def replaceBytes (value : Text) (pos count : Nat) (str : Text) : Text :=
  value.take pos ++ str ++ value.drop (pos + count)

/-- An argument of type `const String &`: another string, or the very one that is changed. -/
inductive Argument where
  | other (value : Text)
  | itself

/-- What the argument holds while the string holds `value`. -/
def Argument.value (value : Text) : Argument → Text
  | .other text => text
  | .itself => value

/-- One turn of the loop in `replace`, over the string and the position. -/
def replaceTurn (find replace : Argument) (s : Text × Nat) : Option (Turn (Text × Nat) Text) :=
  match findFrom s.1 (find.value s.1) s.2 with
  | none => some (.leave s.1)
  | some pos =>
    let value := replaceBytes s.1 pos (find.value s.1).length (replace.value s.1)
    some (.again (value, pos + (replace.value value).length))

def replace (find replace : Argument) (value : Text) (fuel : Nat) : Option Text :=
  if (find.value value).isEmpty then some value else loop (replaceTurn find replace) fuel (value, 0)

/-- The call ends, and leaves the text with the leftmost occurrences of the pattern
    replaced, the arguments taken as they are at the call. -/
def ReplacesOccurrences (s : Text) (find repl : Argument) : Prop :=
  ∃ places, Leftmost (find.value s) s 0 places ∧
    Ends (replace find repl s) (splice (find.value s).length (repl.value s) s 0 places)

/-- The pattern is not the string itself with nothing to replace it, and the string does
    not replace another pattern that occurs again behind its first occurrence. -/
def Undisturbed (s : Text) : Argument → Argument → Prop
  | .itself, repl => repl.value s ≠ []
  | .other f, .itself => ∀ a b, FirstAt f s a → OccursAt f s b → b < a + f.length
  | .other _, .other _ => True

theorem findFrom_eq_some {value str : Text} {pos i : Nat} (hpos : pos ≤ value.length)
    (hfirst : FirstAt str (value.drop pos) i) : findFrom value str pos = some (pos + i) := by
  rw [findFrom, if_neg (Nat.not_lt_of_le hpos), indexOfText_eq_some_iff.mpr hfirst, Option.map_some]

theorem findFrom_eq_none {value str : Text} {pos : Nat} (hnone : ∀ a, ¬OccursAt str (value.drop pos) a) :
    findFrom value str pos = none := by
  have hindex : indexOfText (value.drop pos) str = none :=
    Option.eq_none_iff_forall_ne_some.mpr fun i hi => hnone i (indexOfText_eq_some_iff.mp hi).occurs
  rw [findFrom, hindex, Option.map_none, ite_self]

/-- Nothing is found at the end of a string, or behind it. -/
theorem findFrom_end {value str : Text} {pos : Nat} (hstr : str ≠ []) (hpos : value.length ≤ pos) :
    findFrom value str pos = none := by
  refine findFrom_eq_none fun a ha => ?_
  have hend := ha.end_le hstr
  have hlength := List.length_pos_iff.mpr hstr
  rw [List.drop_of_length_le hpos, List.length_nil] at hend
  omega

theorem replace_unfold (find repl : Argument) (s : Text) (hfind : find.value s ≠ []) (fuel : Nat) :
    replace find repl s fuel = loop (replaceTurn find repl) fuel (s, 0) := by
  rw [replace, if_neg (by simpa using hfind)]

theorem replace_fuelMonotone (find repl : Argument) (s : Text) : FuelMonotone (replace find repl s) := by
  intro fuel fuel' t hle h
  rw [replace] at h ⊢
  split
  · rename_i hempty
    rwa [if_pos hempty] at h
  · rename_i hfind
    rw [if_neg hfind] at h
    exact loop_mono (fun _ _ hturn => hturn) hle h

section Turn

variable (find repl : Argument) (value : Text) {pos : Nat}

theorem replaceTurn_leave (hfind : findFrom value (find.value value) pos = none) :
    replaceTurn find repl (value, pos) = some (.leave value) := by
  rw [replaceTurn, hfind]

theorem replaceTurn_again {at_ : Nat} {value' : Text} (hfind : findFrom value (find.value value) pos = some at_)
    (hvalue : replaceBytes value at_ (find.value value).length (repl.value value) = value') :
    replaceTurn find repl (value, pos) = some (.again (value', at_ + (repl.value value').length)) := by
  rw [replaceTurn, hfind]
  simp only [hvalue]

end Turn

section Others

variable {f r s : Text}

/-- The loop from any point: what is done is never looked at again, and what is left is
    the end of the original string. -/
theorem loop_replace (hf : f ≠ []) {start : Nat} {places : List Nat} (hplaces : Leftmost f s start places)
    (done : Text) {fuel : Nat} (hfuel : places.length < fuel) :
    loop (replaceTurn (.other f) (.other r)) fuel (done ++ s.drop start, done.length) =
      some (done ++ splice f.length r s start places) := by
  induction hplaces generalizing done fuel with
  | @stop start hnone =>
    obtain ⟨fuel, rfl⟩ := Nat.exists_eq_succ_of_ne_zero (Nat.ne_of_gt hfuel)
    refine loop_leave (replaceTurn_leave _ _ _ (findFrom_eq_none fun a ha => ?_)) fuel
    rw [List.drop_left, occursAt_drop] at ha
    exact hnone _ (Nat.le_add_right start a) ha
  | @found start a places hle hoccurs hfirst hrest ih =>
    obtain ⟨fuel, rfl⟩ := Nat.exists_eq_succ_of_ne_zero (Nat.ne_of_gt (Nat.zero_lt_of_lt hfuel))
    have hend := hoccurs.end_le hf
    obtain ⟨gap, rfl⟩ := Nat.exists_eq_add_of_le hle
    have hhere : FirstAt f ((done ++ s.drop start).drop done.length) gap := by
      rw [List.drop_left]
      exact firstAt_drop_iff.mpr ⟨hoccurs, hfirst⟩
    have hfound := findFrom_eq_some (by simp) hhere
    have hvalue : replaceBytes (done ++ s.drop start) (done.length + gap) f.length r =
        (done ++ (s.drop start).take gap ++ r) ++ s.drop (start + gap + f.length) := by
      rw [replaceBytes, List.take_length_add_append, Nat.add_assoc, List.drop_length_add_append,
        List.drop_drop, Nat.add_assoc]
    have hlength : (done ++ (s.drop start).take gap ++ r).length = done.length + gap + r.length := by
      simp only [List.length_append, List.length_take, List.length_drop]
      omega
    have hagain := replaceTurn_again (.other f) (.other r) _ hfound hvalue
    rw [loop_again hagain, Argument.value, ← hlength, ih _ (Nat.lt_of_succ_lt_succ hfuel), splice,
      Nat.add_sub_cancel_left]
    simp only [List.append_assoc]

end Others

section Itself

variable {f s : Text}

/-- Searching the string for itself finds it whole, once. -/
theorem leftmost_self (hs : s ≠ []) : Leftmost s s 0 [0] := by
  refine .found (Nat.le_refl 0) (List.prefix_refl s) (fun b _ hlt => absurd hlt (Nat.not_lt_zero b)) (.stop ?_)
  intro a hle ha
  have hend := ha.end_le hs
  have hlength := List.length_pos_iff.mpr hs
  omega

theorem replaceTurn_self (s : Text) (repl : Argument) :
    replaceTurn .itself repl (s, 0) = some (.again (repl.value s, (repl.value (repl.value s)).length)) := by
  have hfound : findFrom s s 0 = some (0 + 0) :=
    findFrom_eq_some (Nat.zero_le _) ((firstAt_of_isPrefix (List.prefix_refl s)).mpr rfl)
  have hvalue : replaceBytes s 0 s.length (repl.value s) = repl.value s := by simp [replaceBytes]
  have hagain := replaceTurn_again .itself repl s hfound hvalue
  rwa [Nat.zero_add] at hagain

theorem value_value (repl : Argument) (s : Text) : repl.value (repl.value s) = repl.value s := by
  cases repl <;> rfl

/-- With nothing to replace it, the loop goes on finding an empty pattern in an empty string. -/
theorem replace_self_empty (hs : s ≠ []) (fuel : Nat) : replace .itself (.other []) s fuel = none := by
  have hstuck : ∀ fuel, loop (replaceTurn .itself (.other [])) fuel ([], 0) = none := by
    intro fuel
    induction fuel with
    | zero => rfl
    | succ fuel ih => rwa [loop_again (replaceTurn_again .itself (.other []) [] rfl rfl)]
  rw [replace_unfold .itself _ s hs]
  cases fuel with
  | zero => rfl
  | succ fuel =>
    rw [loop_again (replaceTurn_self s _)]
    exact hstuck fuel

theorem replace_self (hs : s ≠ []) {repl : Argument} (hrepl : repl.value s ≠ []) :
    Ends (replace .itself repl s) (repl.value s) := by
  refine ⟨2, ?_⟩
  have hlast := replaceTurn_leave .itself repl (repl.value s) (findFrom_end hrepl (Nat.le_refl _))
  rw [replace_unfold .itself _ s hs, loop_again (replaceTurn_self s repl), value_value, loop_leave hlast]

/-- A string that replaces something in itself is looked at no further: the position
    moves by its new length. -/
theorem replace_by_self (hf : f ≠ []) {a : Nat} (hfirst : FirstAt f s a) :
    Ends (replace (.other f) .itself s) (s.take a ++ s ++ s.drop (a + f.length)) := by
  refine ⟨2, ?_⟩
  have hfound : findFrom s f 0 = some (0 + a) := findFrom_eq_some (Nat.zero_le _) hfirst
  rw [Nat.zero_add] at hfound
  have hagain := replaceTurn_again (.other f) .itself s hfound rfl
  have hlast (grown : Text) := replaceTurn_leave (.other f) .itself grown
    (findFrom_end hf (Nat.le_add_left grown.length a))
  rw [replace_unfold (.other f) _ s hf, loop_again hagain]
  exact loop_leave (hlast _) 0

end Itself

theorem replacesOccurrences_others {f : Text} (hf : f ≠ []) (r s : Text) :
    ReplacesOccurrences s (.other f) (.other r) := by
  obtain ⟨places, hplaces⟩ := Leftmost.exists hf s 0
  refine ⟨places, hplaces, places.length + 1, ?_⟩
  have hloop := loop_replace hf hplaces [] (r := r) (Nat.lt_succ_self _)
  rw [replace_unfold (.other f) _ s hf]
  exact hloop

theorem replacesOccurrences_self_iff {s : Text} (hs : s ≠ []) (repl : Argument) :
    ReplacesOccurrences s .itself repl ↔ repl.value s ≠ [] := by
  constructor
  · rintro ⟨places, -, fuel, hends⟩ hempty
    cases repl with
    | itself => exact hs hempty
    | other r =>
      obtain rfl : r = [] := hempty
      rw [replace_self_empty hs] at hends
      exact absurd hends (by simp)
  · intro hrepl
    refine ⟨[0], leftmost_self hs, ?_⟩
    have hsplice : splice s.length (repl.value s) s 0 [0] = repl.value s := by simp [splice]
    rw [Argument.value, hsplice]
    exact replace_self hs hrepl

theorem replacesOccurrences_by_self_iff {f : Text} (hf : f ≠ []) (s : Text) :
    ReplacesOccurrences s (.other f) .itself ↔ ∀ a b, FirstAt f s a → OccursAt f s b → b < a + f.length := by
  obtain ⟨places, hplaces⟩ := Leftmost.exists hf s 0
  have hiff : ReplacesOccurrences s (.other f) .itself ↔
      Ends (replace (.other f) .itself s) (splice f.length s s 0 places) := by
    constructor
    · rintro ⟨other, hother, hends⟩
      rwa [hother.unique hplaces] at hends
    · exact fun hends => ⟨places, hplaces, hends⟩
  rw [hiff]
  cases hplaces with
  | stop hnone =>
    refine iff_of_true ⟨1, ?_⟩ fun a b hfirst => absurd hfirst.occurs (hnone a (Nat.zero_le a))
    have hnothing : findFrom s f 0 = none := findFrom_eq_none fun a => hnone a (Nat.zero_le a)
    rw [replace_unfold (.other f) _ s hf]
    exact loop_leave (replaceTurn_leave (.other f) _ s hnothing) 0
  | @found _ a places hle hoccurs hfirst hrest =>
    have hhere : FirstAt f s a := ⟨hoccurs, fun b => hfirst b (Nat.zero_le b)⟩
    have hend := hoccurs.end_le hf
    have hends := replace_by_self hf hhere
    cases hrest with
    | stop hnone =>
      refine iff_of_true ?_ fun a' b hfirst' hb => ?_
      · simpa [splice] using hends
      · obtain rfl := hhere.unique hfirst'
        exact Nat.lt_of_not_le fun hbehind => hnone b hbehind hb
    | @found _ b places hbehind hb hfirst' hrest =>
      have hbound := hb.end_le hf
      refine iff_of_false (fun hspliced => ?_) fun hall => absurd (hall a b hhere hb) (Nat.not_lt_of_le hbehind)
      have htext := congrArg List.length (hspliced.unique (replace_fuelMonotone _ _ s) hends)
      have hpos := List.length_pos_iff.mpr hf
      have hlength := Leftmost.length_splice (r := s) hf
        (.found hle hoccurs hfirst (.found hbehind hb hfirst' hrest))
      have hmul : places.length * f.length ≤ places.length * s.length := Nat.mul_le_mul_left _ (by omega)
      rw [htext] at hlength
      simp only [List.length_append, List.length_take, List.length_drop, List.length_cons, Nat.add_mul,
        Nat.one_mul] at hlength
      omega

/-- Where the pattern is not empty, `replace` ends with the leftmost occurrences replaced
    exactly when it does not work on its own arguments: on a pattern that is the string
    itself with nothing to replace it, or on the string itself as the replacement of a
    pattern that occurs again. -/
theorem replace_correct_iff (s : Text) (find repl : Argument) (hfind : find.value s ≠ []) :
    ReplacesOccurrences s find repl ↔ Undisturbed s find repl := by
  cases find with
  | itself => exact replacesOccurrences_self_iff hfind repl
  | other f =>
    cases repl with
    | itself => exact replacesOccurrences_by_self_iff hfind s
    | other r => exact iff_of_true (replacesOccurrences_others hfind r s) trivial

/-- A replacement that contains the pattern, twice. -/
theorem replace_correct_banana :
    ReplacesOccurrences (ascii "banana") (.other (ascii "an")) (.other (ascii "anan")) :=
  (replace_correct_iff _ (.other _) _ (List.cons_ne_nil _ _)).mpr trivial

/-- A string with itself taken out of it: the call never returns. Each "a" of a string
    replaced by the string itself: only the first one is. -/
theorem replace_of_itself_fails :
    (∀ fuel, replace .itself (.other []) (ascii "a") fuel = none) ∧
      ¬ReplacesOccurrences (ascii "a") .itself (.other []) ∧
      Ends (replace (.other (ascii "a")) .itself (ascii "aa")) (ascii "aaa") ∧
      ¬ReplacesOccurrences (ascii "aa") (.other (ascii "a")) .itself := by
  have ha : ascii "a" ≠ [] := List.cons_ne_nil _ _
  have hfirst : FirstAt (ascii "a") (ascii "aa") 0 := (firstAt_of_isPrefix (List.prefix_append _ [97])).mpr rfl
  have hsecond : OccursAt (ascii "a") (ascii "aa") 1 := List.prefix_refl [97]
  refine ⟨replace_self_empty ha, ?_, replace_by_self ha hfirst, ?_⟩
  · exact fun hends => (replacesOccurrences_self_iff ha _).mp hends rfl
  · intro hends
    exact absurd ((replacesOccurrences_by_self_iff ha _).mp hends 0 1 hfirst hsecond) (Nat.lt_irrefl 1)

end HostArduino.wstring

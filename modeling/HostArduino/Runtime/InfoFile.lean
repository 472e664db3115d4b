import HostArduino.Print.Format

namespace HostArduino.runtime

open http Lib
open print (decimal)

def portKey : Text :=
  ascii "\"port\""

/-- What `writeInfoFile` writes. -/
def infoText (pid port : Int) : Text :=
  ascii "\x7b\n" ++ (ascii "  \"pid\": " ++ decimal pid ++ ascii ",\n") ++
    (ascii "  \"port\": " ++ decimal port ++ ascii "\n") ++ ascii "\x7d\n"

/-- `readInfoFile` of a file with this content; `none` is a file that cannot be opened. -/
def readInfoFile (file : Option Text) : Option Text :=
  file.filter fun data => (indexOfText data portKey).isSome

/-- `std::atoi` of a text's C string, which is `strtol` cut to an `int`. -/
def atoi (s : Text) : Int :=
  (strtol s 10).bmod (2 ^ 32)

def parsePort (content : Text) : Int :=
  match indexOfText content portKey with
  | none => 0
  | some pos =>
    match indexOfFrom content 58 (pos + portKey.length) with
    | none => 0
    | some colon => atoi (content.drop (colon + 1))

/-- The polling loop of `runLauncher`, over what it finds at each of its polls up to the
    deadline: the port that it prints. -/
def runLauncherLoop : List (Option Text) → Option Int
  | [] => none
  | file :: files =>
    match readInfoFile file with
    | some content => if 0 < parsePort content then some (parsePort content) else runLauncherLoop files
    | none => runLauncherLoop files

/-- The text before the key of the port, and that before its digits. -/
def beforeKey (pid : Int) : Text :=
  ascii "\x7b\n" ++ (ascii "  \"pid\": " ++ decimal pid ++ ascii ",\n") ++ ascii "  "

def beforePort (pid : Int) : Text :=
  beforeKey pid ++ portKey ++ ascii ": "

/-- A digit of the port is there. -/
def hasDigit (pid : Int) (content : Text) : Bool :=
  (beforePort pid).length < content.length

/-- The content ends among the digits of the port: it has some of them and not all. -/
def Torn (pid port : Int) (content : Text) : Prop :=
  ∃ digits, digits ≠ [] ∧ digits <+: decimal port ∧ digits ≠ decimal port ∧ content = beforePort pid ++ digits

/-- Whoever reads this content finds it not ready, or the port in it. -/
def Truthful (port : Int) (content : Text) : Prop :=
  ∀ data, readInfoFile (some content) = some data → parsePort data ≤ 0 ∨ parsePort data = port

theorem infoText_eq (pid port : Int) :
    infoText pid port = beforePort pid ++ (decimal port ++ ascii "\n\x7d\n") := by
  have hkey : ascii "  \"port\": " = ascii "  " ++ portKey ++ ascii ": " := rfl
  have hend : ascii "\n\x7d\n" = ascii "\n" ++ ascii "\x7d\n" := rfl
  simp only [infoText, beforePort, beforeKey, hkey, hend, List.append_assoc]

/-- What a reader sees of a text in two parts: less than the first, or all of it and some
    of the second. -/
theorem seen_cases {content front back : Text} (hseen : content <+: front ++ back) :
    content.length < front.length ∨ ∃ more, more <+: back ∧ content = front ++ more := by
  by_cases hlength : content.length < front.length
  · exact .inl hlength
  · obtain ⟨more, rfl⟩ := List.prefix_of_prefix_length_le (List.prefix_append front back) hseen
      (Nat.le_of_not_lt hlength)
    exact .inr ⟨more, (List.prefix_append_right_inj front).mp hseen, rfl⟩

section Key

variable (pid : Int)

theorem decimal_byte {value : Int} {d : UInt8} (hd : d ∈ decimal value) : d = 45 ∨ isdigit d = true := by
  unfold decimal at hd
  split at hd
  · obtain rfl | hd := List.mem_cons.mp hd
    · exact .inl rfl
    · exact .inr (isdigit_formatUnsigned _ d hd)
  · exact .inr (isdigit_formatUnsigned _ d hd)

/-- There is no `o` before the one in the key of the port. -/
theorem o_notMem : (111 : UInt8) ∉ beforeKey pid ++ portKey.take 2 := by
  have hdecimal : (111 : UInt8) ∉ decimal pid := by
    intro hmem
    obtain heq | hdigit := decimal_byte hmem
    · exact absurd heq (by decide)
    · exact absurd hdigit (by decide)
  have hopen : (111 : UInt8) ∉ ascii "\x7b\n" := by decide
  have hpid : (111 : UInt8) ∉ ascii "  \"pid\": " := by decide
  have hcomma : (111 : UInt8) ∉ ascii ",\n" := by decide
  have hindent : (111 : UInt8) ∉ ascii "  " := by decide
  have hkey : (111 : UInt8) ∉ portKey.take 2 := by decide
  simp [beforeKey, hdecimal, hopen, hpid, hcomma, hindent, hkey]

theorem indexOfText_portKey (rest : Text) :
    indexOfText (beforeKey pid ++ (portKey ++ rest)) portKey = some (beforeKey pid).length :=
  indexOfText_eq_some_iff.mpr (firstAt_append (i := 2) (x := 111) rfl (o_notMem pid) rest)

end Key

section Number

theorem toInt_space (s : Text) : toInt (32 :: s) = toInt s := by
  rw [toInt, toInt, strtol, strtol, List.dropWhile_cons_of_pos rfl]

/-- Some of a number's digits are those of a smaller number, which is not zero. -/
theorem exists_of_prefix_formatUnsigned {n : Nat} {digits : Text} (hne : digits ≠ [])
    (hbegins : digits <+: formatUnsigned n) (hproper : digits ≠ formatUnsigned n) :
    ∃ m, 0 < m ∧ m < n ∧ digits = formatUnsigned m := by
  fun_induction formatUnsigned n with
  | case1 n hn =>
    obtain hwhole | hnil := List.prefix_concat_iff.mp (show digits <+: [] ++ [48 + UInt8.ofNat n] from hbegins)
    · exact absurd hwhole hproper
    · exact absurd (List.prefix_nil.mp hnil) hne
  | case2 n hn ih =>
    obtain hwhole | hbegins := List.prefix_concat_iff.mp hbegins
    · exact absurd hwhole hproper
    · by_cases hall : digits = formatUnsigned (n / 10)
      · exact ⟨n / 10, by omega, by omega, hall⟩
      · obtain ⟨m, hpos, hlt, hdigits⟩ := ih hbegins hall
        exact ⟨m, hpos, by omega, hdigits⟩

theorem atoi_formatUnsigned {n : Nat} (hn : n ≤ 65535) {rest : Text}
    (hrest : ∀ b ∈ rest.head?, isdigit b = false) :
    atoi (32 :: (formatUnsigned n ++ rest)) = n := by
  obtain ⟨-, hne, hread⟩ := formatUnsigned_spec n
  have hvalue := toInt_digits hne (isdigit_formatUnsigned n) hrest
  have hmin : min LONG_MAX (n : Int) = n := by
    refine Int.min_eq_right ?_
    unfold LONG_MAX
    omega
  have hspace := toInt_space (formatUnsigned n ++ rest)
  rw [hvalue, hread, hmin] at hspace
  rw [atoi, ← toInt, hspace]
  exact Int.bmod_eq_of_le (by omega) (by omega)

end Number

section Content

variable {pid port : Int} {content : Text}

theorem decimal_of_nonneg {value : Int} (hvalue : 0 ≤ value) : decimal value = formatUnsigned value.toNat := by
  rw [decimal, if_neg (Int.not_lt.mpr hvalue)]
  congr 1
  omega

theorem readInfoFile_some (rest : Text) :
    readInfoFile (some (beforeKey pid ++ (portKey ++ rest))) = some (beforeKey pid ++ (portKey ++ rest)) := by
  rw [readInfoFile, Option.filter_some, indexOfText_portKey]
  rfl

/-- Behind the key the number is read past the colon. -/
theorem parsePort_eq (rest : Text) :
    parsePort (beforeKey pid ++ (portKey ++ rest)) = (indexOf rest 58).elim 0 fun i => atoi (rest.drop (i + 1)) := by
  have hbehind (i : Nat) : (beforeKey pid ++ (portKey ++ rest)).drop ((beforeKey pid).length + portKey.length + i) =
      rest.drop i := by
    rw [Nat.add_assoc, List.drop_length_add_append, List.drop_length_add_append]
  have hstart := hbehind 0
  rw [Nat.add_zero, List.drop_zero] at hstart
  rw [parsePort, indexOfText_portKey]
  simp only [indexOfFrom, hstart]
  cases hcolon : indexOf rest 58 with
  | none => rfl
  | some i =>
    simp only [Option.map_some, Option.elim_some]
    rw [Nat.add_assoc, hbehind]

theorem readInfoFile_short (hseen : content <+: infoText pid port)
    (hshort : content.length < (beforeKey pid ++ portKey).length) : readInfoFile (some content) = none := by
  rw [readInfoFile, Option.filter_some, if_neg]
  intro hfound
  obtain ⟨b, hb⟩ := Option.isSome_iff_exists.mp hfound
  have hoccurs := (indexOfText_eq_some_iff.mp hb).occurs
  have hend := hoccurs.end_le (List.cons_ne_nil _ _)
  have hplace : OccursAt portKey (infoText pid port) b := hoccurs.mono hseen
  rw [infoText_eq, beforePort, List.append_assoc, List.append_assoc] at hplace
  have hle := hplace.length_le (i := 2) (x := 111) rfl (o_notMem pid)
  rw [List.length_append] at hshort
  omega

/-- Up to the blank behind the colon there is no number. -/
theorem parsePort_short {more : Text} (hseen : more <+: ascii ": " ++ (decimal port ++ ascii "\n\x7d\n"))
    (hshort : more.length < (ascii ": ").length) : parsePort (beforeKey pid ++ (portKey ++ more)) = 0 := by
  rw [parsePort_eq]
  cases more with
  | nil => rfl
  | cons c more =>
    obtain ⟨rfl, -⟩ := List.cons_prefix_cons.mp hseen
    have hnil : more.length ≤ 0 := Nat.le_of_lt_succ (Nat.lt_of_succ_lt_succ hshort)
    obtain rfl : more = [] := List.eq_nil_of_length_eq_zero (Nat.le_zero.mp hnil)
    rfl

theorem parsePort_more (more : Text) :
    parsePort (beforeKey pid ++ (portKey ++ (ascii ": " ++ more))) = atoi (32 :: more) := by
  rw [parsePort_eq]
  rfl

theorem hasDigit_iff (pid : Int) (digits : Text) :
    hasDigit pid (beforePort pid ++ digits) = true ↔ digits ≠ [] := by
  rw [hasDigit, decide_eq_true_iff, List.length_append, ← List.length_pos_iff]
  omega

theorem Torn.hasDigit (htorn : Torn pid port content) : hasDigit pid content = true := by
  obtain ⟨digits, hne, -, -, rfl⟩ := htorn
  exact (hasDigit_iff pid digits).mpr hne

theorem not_torn {rest : Text} : ¬Torn pid port (beforePort pid ++ (decimal port ++ rest)) := by
  rintro ⟨digits, -, hbegins, hproper, heq⟩
  obtain rfl := List.append_cancel_left heq
  exact hproper (hbegins.eq_of_length_le (by simp))

section Port

variable (hpositive : 1 ≤ port) (hport : port ≤ 65535)

include hpositive hport

/-- Where there are digits, their number is read: it is a smaller one where some are missing. -/
theorem atoi_digits (pid : Int) {digits : Text} (hne : digits ≠ [])
    (hdigits : digits <+: decimal port ++ ascii "\n\x7d\n") :
    0 < atoi (32 :: digits) ∧ (atoi (32 :: digits) = port ↔ ¬Torn pid port (beforePort pid ++ digits)) := by
  have hdecimal : decimal port = formatUnsigned port.toNat := decimal_of_nonneg (by omega)
  obtain hshort | ⟨rest, hrest, rfl⟩ := seen_cases hdigits
  · have hbegins : digits <+: decimal port :=
      List.prefix_of_prefix_length_le hdigits (List.prefix_append _ _) (Nat.le_of_lt hshort)
    have hproper : digits ≠ decimal port := fun heq => absurd (congrArg List.length heq) (Nat.ne_of_lt hshort)
    have htorn : Torn pid port (beforePort pid ++ digits) := ⟨digits, hne, hbegins, hproper, rfl⟩
    rw [hdecimal] at hbegins hproper
    obtain ⟨m, hpos, hlt, rfl⟩ := exists_of_prefix_formatUnsigned hne hbegins hproper
    have hvalue : atoi (32 :: (formatUnsigned m ++ [])) = m := atoi_formatUnsigned (by omega) (by simp)
    rw [List.append_nil] at hvalue
    rw [hvalue]
    exact ⟨by omega, iff_of_false (by omega) (not_not_intro htorn)⟩
  · have hstop : ∀ b ∈ rest.head?, isdigit b = false := by
      cases rest with
      | nil => simp
      | cons c rest =>
        have hline : c :: rest <+: 10 :: ascii "\x7d\n" := hrest
        obtain ⟨rfl, -⟩ := List.cons_prefix_cons.mp hline
        simp [isdigit]
    have hvalue : atoi (32 :: (decimal port ++ rest)) = port := by
      rw [hdecimal, atoi_formatUnsigned (by omega) hstop]
      omega
    rw [hvalue]
    exact ⟨by omega, iff_of_true rfl not_torn⟩

/-- What a reader can find: no digit yet, and nothing that it takes for a port; or digits,
    and the port unless some of them are missing. -/
theorem seen_spec (hseen : content <+: infoText pid port) :
    (hasDigit pid content = false ∧ ∀ data, readInfoFile (some content) = some data → parsePort data = 0) ∨
      hasDigit pid content = true ∧ readInfoFile (some content) = some content ∧ 0 < parsePort content ∧
        (parsePort content = port ↔ ¬Torn pid port content) := by
  have hparts := hseen
  rw [infoText_eq, beforePort, List.append_assoc] at hparts
  obtain hshort | ⟨more, hmore, rfl⟩ := seen_cases hparts
  · refine .inl ⟨?_, fun data hdata => ?_⟩
    · rw [runtime.hasDigit, beforePort, List.length_append, decide_eq_false_iff_not]
      omega
    · rw [readInfoFile_short hseen hshort] at hdata
      cases hdata
  · rw [List.append_assoc, readInfoFile_some]
    obtain hshort | ⟨digits, hdigits, rfl⟩ := seen_cases hmore
    · refine .inl ⟨?_, fun data hdata => ?_⟩
      · rw [runtime.hasDigit, beforePort, decide_eq_false_iff_not]
        simp only [List.length_append]
        omega
      · obtain rfl := Option.some.inj hdata
        exact parsePort_short hmore hshort
    · have hwhole : beforeKey pid ++ (portKey ++ (ascii ": " ++ digits)) = beforePort pid ++ digits := by
        simp only [beforePort, List.append_assoc]
      rw [parsePort_more, hwhole]
      by_cases hne : digits = []
      · subst hne
        refine .inl ⟨by simpa using hasDigit_iff pid [], fun data hdata => ?_⟩
        obtain rfl := Option.some.inj hdata
        rw [← hwhole, parsePort_more]
        rfl
      · obtain ⟨hpos, hvalue⟩ := atoi_digits hpositive hport pid hne hdigits
        exact .inr ⟨(hasDigit_iff pid digits).mpr hne, rfl, hpos, hvalue⟩

theorem truthful_iff (hseen : content <+: infoText pid port) : Truthful port content ↔ ¬Torn pid port content := by
  obtain ⟨hdigit, hzero⟩ | ⟨-, hread, hpos, hvalue⟩ := seen_spec hpositive hport hseen
  · refine iff_of_true (fun data hdata => .inl (Int.le_of_eq (hzero data hdata))) fun htorn => ?_
    rw [htorn.hasDigit] at hdigit
    cases hdigit
  · rw [← hvalue]
    constructor
    · exact fun htruthful => (htruthful content hread).resolve_left (by omega)
    · intro heq data hdata
      rw [hread] at hdata
      obtain rfl := Option.some.inj hdata
      exact .inr heq

/-- The launcher stops at the first content with a digit of the port in it. -/
theorem runLauncherLoop_eq {files : List (Option Text)}
    (hseen : ∀ content, some content ∈ files → content <+: infoText pid port) :
    runLauncherLoop files = (files.findSome? fun file => file.filter (hasDigit pid)).map parsePort := by
  induction files with
  | nil => rfl
  | cons file files ih =>
    have hrest := ih fun content hcontent => hseen content (List.mem_cons_of_mem _ hcontent)
    rw [runLauncherLoop, List.findSome?_cons]
    cases file with
    | none => exact hrest
    | some content =>
      obtain ⟨hdigit, hzero⟩ | ⟨hdigit, hread, hpos, -⟩ :=
        seen_spec hpositive hport (hseen content List.mem_cons_self)
      · rw [Option.filter_some_neg (by simp [hdigit])]
        cases hread : readInfoFile (some content) with
        | none => exact hrest
        | some data =>
          rw [← hrest]
          exact if_neg (by rw [hzero data hread]; omega)
      · rw [Option.filter_some_pos hdigit, hread]
        exact if_pos hpos

end Port

end Content

/-- A reader of any part of the file finds it not ready or finds the port, exactly when the
    part does not end among the port's digits. And the launcher prints no other port exactly
    when the first content with a digit in it, of those it sees, has them all. -/
theorem infoFile_correct_iff (pid : Int) {port : Int} (hpositive : 1 ≤ port) (hport : port ≤ 65535) :
    (∀ content, content <+: infoText pid port → (Truthful port content ↔ ¬Torn pid port content)) ∧
      ∀ files : List (Option Text), (∀ content, some content ∈ files → content <+: infoText pid port) →
        ((∀ printed, runLauncherLoop files = some printed → printed = port) ↔
          ∀ content, (files.findSome? fun file => file.filter (hasDigit pid)) = some content →
            ¬Torn pid port content) := by
  refine ⟨fun content hseen => truthful_iff hpositive hport hseen, fun files hseen => ?_⟩
  rw [runLauncherLoop_eq hpositive hport hseen]
  cases hfirst : files.findSome? fun file => file.filter (hasDigit pid) with
  | none => simp
  | some content =>
    obtain ⟨file, hfile, hfilter⟩ := List.exists_of_findSome?_eq_some hfirst
    obtain ⟨rfl, hdigit⟩ := Option.filter_eq_some_iff.mp hfilter
    have hvalue : parsePort content = port ↔ ¬Torn pid port content := by
      obtain ⟨hnone, -⟩ | ⟨-, -, -, hvalue⟩ := seen_spec hpositive hport (hseen content hfile)
      · rw [hnone] at hdigit
        cases hdigit
      · exact hvalue
    simpa using hvalue

/-- With the whole file. -/
theorem infoFile_correct_whole : Truthful 8080 (infoText 1 8080) := by
  refine ((infoFile_correct_iff 1 (by decide) (by decide)).1 _ (List.prefix_refl _)).mpr ?_
  rw [infoText_eq]
  exact not_torn

/-- The port is 12345, and the file ends behind its first two digits: the launcher prints
    the port 12. -/
theorem infoFile_torn :
    beforePort 1 ++ ascii "12" <+: infoText 1 12345 ∧ ¬Truthful 12345 (beforePort 1 ++ ascii "12") ∧
      runLauncherLoop [some (beforePort 1 ++ ascii "12")] = some 12 := by
  have hdecimal : decimal 12345 = ascii "12" ++ ascii "345" := by
    simp [decimal, formatUnsigned]
    decide
  have hseen : beforePort 1 ++ ascii "12" <+: infoText 1 12345 := by
    rw [infoText_eq, hdecimal, List.append_assoc, List.prefix_append_right_inj]
    exact List.prefix_append _ _
  have htorn : Torn 1 12345 (beforePort 1 ++ ascii "12") := by
    refine ⟨ascii "12", List.cons_ne_nil _ _, ?_, ?_, rfl⟩
    · rw [hdecimal]
      exact List.prefix_append _ _
    · rw [hdecimal]
      exact fun heq => absurd (congrArg List.length heq) (by decide)
  have hvalue : parsePort (beforePort 1 ++ ascii "12") = 12 := by
    have hwhole : beforePort 1 ++ ascii "12" = beforeKey 1 ++ (portKey ++ (ascii ": " ++ ascii "12")) := by
      simp only [beforePort, List.append_assoc]
    rw [hwhole, parsePort_more]
    decide
  have hpositive : (1 : Int) ≤ 12345 := by decide
  have hport : (12345 : Int) ≤ 65535 := by decide
  refine ⟨hseen, fun htruthful => (truthful_iff hpositive hport hseen).mp htruthful htorn, ?_⟩
  have hfirst : [some (beforePort 1 ++ ascii "12")].findSome? (fun file => file.filter (hasDigit 1)) =
      some (beforePort 1 ++ ascii "12") := by
    rw [List.findSome?_cons, Option.filter_some_pos htorn.hasDigit]
  rw [runLauncherLoop_eq hpositive hport (by simpa using hseen), hfirst, Option.map_some, hvalue]

end HostArduino.runtime

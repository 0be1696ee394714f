import Opcodes.Generate

/-!
# Command lines of the generator

A command line of the generator is a row of settings, each in one of its
spellings and at most one of a kind, which may end in two dashes or in a call
for help. A scan that accepts each value as soon as it is met finds the
settings of exactly such lines.
-/

namespace Opcodes.Proofs.OrderLines

open CommandLine Generate

/-! ## The grammar -/

/-- The kinds of settings. -/
inductive Slot where
  | emission
  | path
deriving DecidableEq, Repr

inductive Setting where
  | emission (wanted : Emission)
  | path (file : String)
deriving DecidableEq, Repr

namespace Setting

def slot : Setting → Slot
  | .emission _ => .emission
  | .path _ => .path

def apply (order : Order) : Setting → Order
  | .emission wanted => { order with emission := wanted }
  | .path file => { order with path := some file }

end Setting

/-- A word that can be taken for a value of its own: it does not start like a switch. -/
def IsPlain (word : String) : Prop :=
  word = "-" ∨ word.toList.head? ≠ some '-'

/-- The words that make a setting. -/
inductive Spells : Setting → List String → Prop where
  | emission {keyword : String} {wanted : Emission}
      (known : Emission.choices.lookup keyword = some wanted) :
      Spells (.emission wanted) ["--emit", keyword]
  | emissionJoined {keyword : String} {wanted : Emission}
      (known : Emission.choices.lookup keyword = some wanted) :
      Spells (.emission wanted) ["--emit=" ++ keyword]
  | path {file : String} (given : file ≠ "") (plain : IsPlain file) :
      Spells (.path file) ["-o", file]
  | pathJoined {file : String} (given : file ≠ "") (unmarked : file.toList.head? ≠ some '=') :
      Spells (.path file) ["-o" ++ file]
  | pathMarked {file : String} (given : file ≠ "") :
      Spells (.path file) ["-o=" ++ file]

/-- The words that call for a text about the program. Letters behind a short call do not matter. -/
inductive Calls : String → Prop where
  | help : Calls "--help"
  | version : Calls "--version"
  | letters {letter : Char} (rest : List Char) (call : letter = 'h' ∨ letter = 'V') :
      Calls (String.ofList ('-' :: letter :: rest))

/-- A command line makes settings in turn. It may be cut short by a call. -/
inductive Line : List String → List Setting → Bool → Prop where
  | done : Line [] [] false
  | dashes : Line ["--"] [] false
  | call {word : String} (rest : List String) (calls : Calls word) : Line (word :: rest) [] true
  | setting {words later : List String} {setting : Setting} {settings : List Setting}
      {called : Bool} (spells : Spells setting words) (rest : Line later settings called) :
      Line (words ++ later) (setting :: settings) called

/-- What is ordered without any setting. -/
def standard : Order :=
  ⟨.names, none⟩

/-- The command line makes an order. -/
def Orders (arguments : List String) (order : Order) : Prop :=
  ∃ settings, Line arguments settings false ∧ (settings.map Setting.slot).Nodup ∧
    settings.foldl Setting.apply standard = order

/-- The command line asks for a text about the program. -/
def Asks (arguments : List String) : Prop :=
  ∃ settings, Line arguments settings true ∧ (settings.map Setting.slot).Nodup

/-! ## Words -/

/-- What a word is to the reader. A switch waits for its value in the next word, or is joined with
it. -/
inductive Word where
  | dashes
  | waiting (slot : Slot)
  | joined (slot : Slot) (value : String)
  | call
  | plain
  | unknown
deriving DecidableEq, Repr

namespace Word

def valued (slot : Slot) : Option String → Word
  | none => .waiting slot
  | some value => .joined slot value

def long : String × Option String → Word
  | (name, value?) =>
      if name = "emit" then valued .emission value?
      else if name = "help" ∨ name = "version" then
        if value?.isSome then .unknown else .call
      else .unknown

def cluster (letter : Char) (rest : List Char) : Word :=
  if letter = 'o' then valued .path (Level.clusterValue rest)
  else if letter = 'h' ∨ letter = 'V' then .call
  else .unknown

def read : List Char → Word
  | ['-', '-'] => .dashes
  | '-' :: '-' :: characters => long (Level.splitLong characters)
  | '-' :: letter :: rest => cluster letter rest
  | _ => .plain

def of (text : String) : Word :=
  read text.toList

end Word

/-- The characters that a name and its value were split from. -/
def rejoin : String × Option String → List Char
  | (name, none) => name.toList
  | (name, some value) => name.toList ++ '=' :: value.toList

theorem rejoin_splitLong (characters : List Char) :
    rejoin (Level.splitLong characters) = characters := by
  have whole := List.takeWhile_append_dropWhile (p := (· != '=')) (l := characters)
  unfold Level.splitLong
  cases rest : characters.dropWhile (· != '=') with
  | nil => simpa [rejoin, rest] using whole
  | cons mark value =>
      have marked : mark = '=' := by
        simpa [rest] using List.head?_dropWhile_not (· != '=') characters
      subst marked
      simpa [rejoin, rest] using whole

namespace Word

variable {text value : String} {slot : Slot}

theorem valued_eq_joined_iff {wanted : Slot} {value? : Option String} :
    valued wanted value? = .joined slot value ↔ wanted = slot ∧ value? = some value := by
  cases value? <;> simp [valued]

theorem long_ne (split : String × Option String) : long split ≠ .dashes ∧ long split ≠ .plain := by
  obtain ⟨name, value?⟩ := split
  unfold long valued
  constructor <;> split <;> grind

theorem long_eq_waiting {split : String × Option String} (met : long split = .waiting slot) :
    slot = .emission ∧ split = ("emit", none) := by
  obtain ⟨name, value?⟩ := split
  unfold long valued at met
  grind

theorem long_eq_joined {split : String × Option String}
    (met : long split = .joined slot value) :
    slot = .emission ∧ split = ("emit", some value) := by
  obtain ⟨name, value?⟩ := split
  unfold long valued at met
  grind

theorem long_eq_call {split : String × Option String} (met : long split = .call) :
    split = ("help", none) ∨ split = ("version", none) := by
  obtain ⟨name, value?⟩ := split
  unfold long valued at met
  cases value? with
  | none => grind
  | some value => grind

theorem clusterValue_eq_some {rest : List Char} (attached : Level.clusterValue rest = some value) :
    rest = '=' :: value.toList ∨
      rest = value.toList ∧ value ≠ "" ∧ value.toList.head? ≠ some '=' := by
  unfold Level.clusterValue at attached
  split at attached
  case h_1 => cases attached
  case h_2 =>
      cases attached
      exact .inl (by rw [String.toList_ofList])
  case h_3 nonempty unmarked =>
      cases attached
      refine .inr ⟨by rw [String.toList_ofList], fun empty => ?_, fun marked => ?_⟩
      · exact nonempty (String.ofList_eq_empty_iff.mp empty)
      · obtain ⟨behind, same⟩ := List.head?_eq_some_iff.mp marked
        exact unmarked behind (by rw [← same, String.toList_ofList])

theorem cluster_ne (letter : Char) (rest : List Char) :
    cluster letter rest ≠ .dashes ∧ cluster letter rest ≠ .plain := by
  unfold cluster valued
  grind

theorem cluster_eq_waiting {letter : Char} {rest : List Char}
    (met : cluster letter rest = .waiting slot) : slot = .path ∧ letter = 'o' ∧ rest = [] := by
  unfold cluster valued Level.clusterValue at met
  grind

theorem cluster_eq_joined {letter : Char} {rest : List Char}
    (met : cluster letter rest = .joined slot value) :
    slot = .path ∧ letter = 'o' ∧
      (rest = '=' :: value.toList ∨
        rest = value.toList ∧ value ≠ "" ∧ value.toList.head? ≠ some '=') := by
  unfold cluster at met
  split at met
  case isTrue same =>
      obtain ⟨slotted, attached⟩ := valued_eq_joined_iff.mp met
      exact ⟨slotted.symm, same, clusterValue_eq_some attached⟩
  case isFalse => grind

theorem cluster_eq_call {letter : Char} {rest : List Char} (met : cluster letter rest = .call) :
    letter = 'h' ∨ letter = 'V' := by
  unfold cluster valued Level.clusterValue at met
  grind

theorem of_long {characters : List Char} (longer : characters ≠ [])
    (same : text.toList = '-' :: '-' :: characters) :
    of text = long (Level.splitLong characters) := by
  rw [of, same]
  cases characters with
  | nil => contradiction
  | cons first rest => rfl

theorem of_cluster {letter : Char} {rest : List Char} (short : letter ≠ '-')
    (same : text.toList = '-' :: letter :: rest) : of text = cluster letter rest := by
  rw [of, same]
  exact read.eq_3 letter rest (fun dash _ => short dash) short

theorem of_plain (plain : IsPlain text) : of text = .plain := by
  rcases plain with rfl | unlike
  · rfl
  · unfold of read
    split
    case h_4 => rfl
    all_goals
      rename_i same
      simp [same] at unlike

theorem isPlain_of_ne (unlike : ∀ letter rest, text.toList ≠ '-' :: letter :: rest) :
    IsPlain text := by
  refine Classical.byContradiction fun dashed => ?_
  obtain ⟨longer, dash⟩ := not_or.mp dashed
  obtain ⟨rest, same⟩ := List.head?_eq_some_iff.mp (Decidable.not_not.mp dash)
  cases rest with
  | nil => exact longer (String.toList_inj.mp same)
  | cons letter rest => exact unlike letter rest same

/-- A word by its shape. -/
theorem of_cases (text : String) :
    (text = "--" ∧ of text = .dashes) ∨
      (∃ split, text = "--" ++ String.ofList (rejoin split) ∧ of text = long split) ∨
      (∃ letter rest, text = String.ofList ('-' :: letter :: rest) ∧
        of text = cluster letter rest) ∨
      IsPlain text ∧ of text = .plain := by
  unfold of read
  split
  case h_1 same => exact .inl ⟨String.toList_inj.mp same, rfl⟩
  case h_2 characters _ same =>
      refine .inr (.inl ⟨Level.splitLong characters, ?_, rfl⟩)
      rw [rejoin_splitLong, ← String.toList_inj, same]
      simp
  case h_3 letter rest _ _ same =>
      refine .inr (.inr (.inl ⟨letter, rest, ?_, rfl⟩))
      rw [← same, String.ofList_toList]
  case h_4 unlike => exact .inr (.inr (.inr ⟨isPlain_of_ne unlike, rfl⟩))

theorem eq_of_dashes (met : of text = .dashes) : text = "--" := by
  rcases of_cases text with ⟨spelled, _⟩ | ⟨split, _, same⟩ | ⟨letter, rest, _, same⟩ | ⟨_, same⟩
  · exact spelled
  · exact absurd (same.symm.trans met) (long_ne split).1
  · exact absurd (same.symm.trans met) (cluster_ne letter rest).1
  · cases same.symm.trans met

theorem isPlain_of_plain (met : of text = .plain) : IsPlain text := by
  rcases of_cases text with ⟨_, same⟩ | ⟨split, _, same⟩ | ⟨letter, rest, _, same⟩ | ⟨plain, _⟩
  · cases same.symm.trans met
  · exact absurd (same.symm.trans met) (long_ne split).2
  · exact absurd (same.symm.trans met) (cluster_ne letter rest).2
  · exact plain

theorem calls_of_call (met : of text = .call) : Calls text := by
  rcases of_cases text with ⟨_, same⟩ | ⟨split, rfl, same⟩ | ⟨letter, rest, rfl, same⟩ | ⟨_, same⟩
  · cases same.symm.trans met
  · rcases long_eq_call (same.symm.trans met) with rfl | rfl
    · exact .help
    · exact .version
  · exact .letters rest (cluster_eq_call (same.symm.trans met))
  · cases same.symm.trans met

/-- The switch whose value is the next word. -/
def name : Slot → String
  | .emission => "--emit"
  | .path => "-o"

theorem eq_name_of_waiting (met : of text = .waiting slot) : text = name slot := by
  rcases of_cases text with ⟨_, same⟩ | ⟨split, rfl, same⟩ | ⟨letter, rest, rfl, same⟩ | ⟨_, same⟩
  · cases same.symm.trans met
  · obtain ⟨rfl, rfl⟩ := long_eq_waiting (same.symm.trans met)
    rfl
  · obtain ⟨rfl, rfl, rfl⟩ := cluster_eq_waiting (same.symm.trans met)
    rfl
  · cases same.symm.trans met

/-- The value that a kind of setting accepts. -/
def setting? (value : String) : Slot → Option Setting
  | .emission => (Emission.choices.lookup value).map .emission
  | .path => if value = "" then none else some (.path value)

theorem setting?_emission_eq_some_iff {setting : Setting} :
    setting? value .emission = some setting ↔
      ∃ wanted, Emission.choices.lookup value = some wanted ∧ .emission wanted = setting :=
  Option.map_eq_some_iff

theorem setting?_path_eq_some_iff {setting : Setting} :
    setting? value .path = some setting ↔ value ≠ "" ∧ .path value = setting := by
  simp only [setting?, Option.ite_none_left_eq_some, Option.some.injEq, Ne]

theorem spells_of_joined {setting : Setting} (met : of text = .joined slot value)
    (accepted : setting? value slot = some setting) : Spells setting [text] := by
  rcases of_cases text with ⟨_, same⟩ | ⟨split, rfl, same⟩ | ⟨letter, rest, rfl, same⟩ | ⟨_, same⟩
  · cases same.symm.trans met
  · obtain ⟨rfl, rfl⟩ := long_eq_joined (same.symm.trans met)
    obtain ⟨wanted, known, rfl⟩ := setting?_emission_eq_some_iff.mp accepted
    have joined : "--" ++ String.ofList (rejoin ("emit", some value)) = "--emit=" ++ value := by
      simp [← String.toList_inj, rejoin]
    rw [joined]
    exact .emissionJoined known
  · obtain ⟨rfl, rfl, attached⟩ := cluster_eq_joined (same.symm.trans met)
    obtain ⟨given, rfl⟩ := setting?_path_eq_some_iff.mp accepted
    rcases attached with rfl | ⟨rfl, _, unmarked⟩
    · have joined : String.ofList ('-' :: 'o' :: '=' :: value.toList) = "-o=" ++ value := by
        simp [← String.toList_inj]
      rw [joined]
      exact .pathMarked given
    · have joined : String.ofList ('-' :: 'o' :: value.toList) = "-o" ++ value := by
        simp [← String.toList_inj]
      rw [joined]
      exact .pathJoined given unmarked
  · cases same.symm.trans met

theorem spells_of_waiting {setting : Setting} (met : of text = .waiting slot)
    (plain : of value = .plain) (accepted : setting? value slot = some setting) :
    Spells setting [text, value] := by
  rw [eq_name_of_waiting met]
  cases slot with
  | emission =>
      obtain ⟨wanted, known, rfl⟩ := setting?_emission_eq_some_iff.mp accepted
      exact .emission known
  | path =>
      obtain ⟨given, rfl⟩ := setting?_path_eq_some_iff.mp accepted
      exact .path given (isPlain_of_plain plain)

/-! The other way round, the spellings are what they spell. -/

theorem of_calls (calls : Calls text) : of text = .call := by
  cases calls with
  | help => rfl
  | version => rfl
  | letters rest call =>
      unfold of
      rw [String.toList_ofList]
      rcases call with rfl | rfl <;> rfl

theorem of_emit (keyword : String) : of ("--emit=" ++ keyword) = .joined .emission keyword := by
  unfold of
  rw [String.toList_append]
  change long (Level.splitLong ("emit=".toList ++ keyword.toList)) = _
  simp [Level.splitLong, long, valued]

theorem of_marked (file : String) : of ("-o=" ++ file) = .joined .path file := by
  unfold of
  rw [String.toList_append]
  change cluster 'o' ('=' :: file.toList) = _
  simp [Level.clusterValue, cluster, valued]

theorem of_unmarked {file : String} (given : file ≠ "") (unmarked : file.toList.head? ≠ some '=') :
    of ("-o" ++ file) = .joined .path file := by
  unfold of
  rw [String.toList_append]
  change cluster 'o' file.toList = _
  have attached : Level.clusterValue file.toList = some file := by
    unfold Level.clusterValue
    split
    case h_1 same => exact absurd (String.toList_eq_nil_iff.mp same) given
    case h_2 same => simp [same] at unmarked
    case h_3 => rw [String.ofList_toList]
  simp [cluster, attached, valued]

theorem plain_of_known {keyword : String} {wanted : Emission}
    (known : Emission.choices.lookup keyword = some wanted) : of keyword = .plain := by
  obtain ⟨before, after, same, _⟩ := List.lookup_eq_some_iff.mp known
  have listed : keyword ∈ Emission.keywords := by simp [Emission.keywords, same]
  simp only [Emission.keywords, Emission.choices, List.map_cons, List.map_nil, List.mem_cons,
    List.not_mem_nil, or_false] at listed
  rcases listed with rfl | rfl <;> rfl

/-- A setting is spelled by a word with its value, or by a switch and a plain word. -/
theorem words_of_spells {setting : Setting} {words : List String} (spells : Spells setting words) :
    ∃ value, setting? value setting.slot = some setting ∧
      ((∃ text, words = [text] ∧ of text = .joined setting.slot value) ∨
        ∃ text, words = [text, value] ∧ of text = .waiting setting.slot ∧ of value = .plain) := by
  cases spells with
  | @emission keyword wanted known =>
      exact ⟨keyword, setting?_emission_eq_some_iff.mpr ⟨wanted, known, rfl⟩,
        .inr ⟨_, rfl, rfl, plain_of_known known⟩⟩
  | @emissionJoined keyword wanted known =>
      exact ⟨keyword, setting?_emission_eq_some_iff.mpr ⟨wanted, known, rfl⟩,
        .inl ⟨_, rfl, of_emit keyword⟩⟩
  | @path file given plain =>
      exact ⟨file, setting?_path_eq_some_iff.mpr ⟨given, rfl⟩,
        .inr ⟨_, rfl, rfl, of_plain plain⟩⟩
  | @pathJoined file given unmarked =>
      exact ⟨file, setting?_path_eq_some_iff.mpr ⟨given, rfl⟩,
        .inl ⟨_, rfl, of_unmarked given unmarked⟩⟩
  | @pathMarked file given =>
      exact ⟨file, setting?_path_eq_some_iff.mpr ⟨given, rfl⟩,
        .inl ⟨_, rfl, of_marked file⟩⟩

end Word

open Word (setting? words_of_spells)

/-! ## Scanning -/

def prepend (setting : Setting) : List Setting × Bool → List Setting × Bool
  | (settings, called) => (setting :: settings, called)

/-- A value makes a setting if its kind accepts it and has not been used. -/
def made (used : List Slot) (slot : Slot) (value : String) : Option Setting :=
  if slot ∈ used then none else setting? value slot

/-- Reads a command line and accepts each value as soon as it is met. -/
def scan : List Slot → List String → Option (List Setting × Bool)
  | _, [] => some ([], false)
  | used, text :: rest =>
      match Word.of text with
      | .dashes => if rest.isEmpty then some ([], false) else none
      | .call => some ([], true)
      | .plain => none
      | .unknown => none
      | .joined slot value =>
          match made used slot value with
          | none => none
          | some setting => (scan (slot :: used) rest).map (prepend setting)
      | .waiting slot =>
          match rest with
          | [] => none
          | value :: behind =>
              if Word.of value = .plain then
                match made used slot value with
                | none => none
                | some setting => (scan (slot :: used) behind).map (prepend setting)
              else none

/-- Nothing is scanned from a word that is no switch. -/
theorem scan_of_unread {text : String}
    (unread : Word.of text = .plain ∨ Word.of text = .unknown) (used : List Slot)
    (rest : List String) : scan used (text :: rest) = none := by
  rcases unread with met | met <;> simp only [scan, met]

/-- No kind of setting is used twice, or once more. -/
def Fresh (used : List Slot) (settings : List Setting) : Prop :=
  (settings.map Setting.slot).Nodup ∧ ∀ setting ∈ settings, setting.slot ∉ used

theorem fresh_nil (used : List Slot) : Fresh used [] :=
  ⟨List.nodup_nil, fun _ member => absurd member List.not_mem_nil⟩

theorem fresh_cons_iff {used : List Slot} {setting : Setting} {settings : List Setting} :
    Fresh used (setting :: settings) ↔
      setting.slot ∉ used ∧ Fresh (setting.slot :: used) settings := by
  simp only [Fresh, List.map_cons, List.nodup_cons, List.mem_map, List.mem_cons, not_or]
  grind

theorem slot_of_setting? {value : String} {slot : Slot} {setting : Setting}
    (accepted : setting? value slot = some setting) : setting.slot = slot := by
  cases slot with
  | emission =>
      obtain ⟨wanted, _, rfl⟩ := Word.setting?_emission_eq_some_iff.mp accepted
      rfl
  | path =>
      obtain ⟨_, rfl⟩ := Word.setting?_path_eq_some_iff.mp accepted
      rfl

theorem made_eq_some_iff {used : List Slot} {slot : Slot} {value : String} {setting : Setting} :
    made used slot value = some setting ↔ slot ∉ used ∧ setting? value slot = some setting := by
  simp only [made, Option.ite_none_left_eq_some]

/-- A setting in front of a line that has been scanned. -/
theorem line_prepend {used : List Slot} {slot : Slot} {value : String} {words later : List String}
    {setting : Setting} {settings : List Setting} {called : Bool}
    (accepted : made used slot value = some setting) (spells : Spells setting words)
    (rest : ∀ {settings : List Setting} {called : Bool},
      scan (slot :: used) later = some (settings, called) →
        Line later settings called ∧ Fresh (slot :: used) settings)
    (scanned : (scan (slot :: used) later).map (prepend setting) = some (settings, called)) :
    Line (words ++ later) settings called ∧ Fresh used settings := by
  obtain ⟨new, valid⟩ := made_eq_some_iff.mp accepted
  obtain rfl := slot_of_setting? valid
  obtain ⟨⟨behind, ending⟩, same, joined⟩ := Option.map_eq_some_iff.mp scanned
  obtain ⟨rfl, rfl⟩ := Prod.mk.inj joined
  obtain ⟨line, fresh⟩ := rest same
  exact ⟨.setting spells line, fresh_cons_iff.mpr ⟨new, fresh⟩⟩

theorem line_of_scan {used : List Slot} {words : List String} {settings : List Setting}
    {called : Bool} (scanned : scan used words = some (settings, called)) :
    Line words settings called ∧ Fresh used settings := by
  fun_induction scan used words generalizing settings called with
  | case1 used =>
      cases scanned
      exact ⟨.done, fresh_nil used⟩
  | case2 used text rest met last =>
      cases scanned
      rw [Word.eq_of_dashes met, List.isEmpty_iff.mp last]
      exact ⟨.dashes, fresh_nil used⟩
  | case4 used text rest met =>
      cases scanned
      exact ⟨.call rest (Word.calls_of_call met), fresh_nil used⟩
  | case8 used text rest slot value met setting accepted ih =>
      have spells := Word.spells_of_joined met (made_eq_some_iff.mp accepted).2
      exact line_prepend accepted spells ih scanned
  | case11 used text slot met value behind plain setting accepted ih =>
      have spells := Word.spells_of_waiting met plain (made_eq_some_iff.mp accepted).2
      exact line_prepend accepted spells ih scanned
  | case3 | case5 | case6 | case7 | case9 | case10 | case12 => cases scanned

theorem scan_of_spells {words : List String} {setting : Setting} (spells : Spells setting words)
    {used : List Slot} (new : setting.slot ∉ used) (later : List String) :
    scan used (words ++ later) =
      (scan (setting.slot :: used) later).map (prepend setting) := by
  obtain ⟨value, valid, ⟨text, rfl, joined⟩ | ⟨text, rfl, waiting, plain⟩⟩ := words_of_spells spells
  · have accepted := made_eq_some_iff.mpr ⟨new, valid⟩
    simp only [List.cons_append, List.nil_append, scan, joined, accepted]
  · have accepted := made_eq_some_iff.mpr ⟨new, valid⟩
    simp only [List.cons_append, List.nil_append, scan, waiting, plain, if_true, accepted]

theorem scan_of_line {words : List String} {settings : List Setting} {called : Bool}
    (line : Line words settings called) (used : List Slot) (fresh : Fresh used settings) :
    scan used words = some (settings, called) := by
  induction line generalizing used with
  | done => rfl
  | dashes => rfl
  | call rest calls => simp only [scan, Word.of_calls calls]
  | setting spells rest ih =>
      obtain ⟨new, fresh⟩ := fresh_cons_iff.mp fresh
      rw [scan_of_spells spells new, ih _ fresh]
      rfl

theorem scan_eq_some_iff {used : List Slot} {words : List String} {settings : List Setting}
    {called : Bool} :
    scan used words = some (settings, called) ↔
      Line words settings called ∧ Fresh used settings :=
  ⟨line_of_scan, fun ⟨line, fresh⟩ => scan_of_line line used fresh⟩

theorem scan_start_iff {words : List String} {settings : List Setting} {called : Bool} :
    scan [] words = some (settings, called) ↔
      Line words settings called ∧ (settings.map Setting.slot).Nodup := by
  simp only [scan_eq_some_iff, Fresh, List.not_mem_nil, not_false_eq_true, implies_true, and_true]

end Opcodes.Proofs.OrderLines

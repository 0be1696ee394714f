import Opcodes.Proofs.OrderLines

/-!
# The generator reads orders

The reader of the generator accepts a value late, when it meets the next
switch or the end of the line. This changes which error is told, but not which
command lines are accepted nor what they ask for: its verdict is that of the
scan, so it accepts exactly the command lines that make an order.
-/

namespace Opcodes.Proofs.Acceptance

open CommandLine Generate OrderLines
open Word (setting?)

/-- What becomes of a command line, whatever is told about it. -/
inductive Verdict where
  | ordered (order : Order)
  | asked
  | refused
deriving DecidableEq, Repr

namespace Verdict

def of : Except Stop Order → Verdict
  | .ok order => .ordered order
  | .error (.informed _) => .asked
  | .error (.refused _) => .refused

/-- The verdict on settings that are made on top of an order. -/
def on (order : Order) : Option (List Setting × Bool) → Verdict
  | none => .refused
  | some (settings, false) => .ordered (settings.foldl Setting.apply order)
  | some (_, true) => .asked

theorem on_prepend (order : Order) (setting : Setting) (scanned : Option (List Setting × Bool)) :
    on order (scanned.map (prepend setting)) = on (setting.apply order) scanned := by
  rcases scanned with _ | ⟨settings, _ | _⟩ <;> rfl

end Verdict

/-! ## Steps of the reader -/

/-- Reads the words that are left. -/
def complete (state : Progress Order) (words : List String) : Except Stop Order :=
  level.walk state words >>= fun later =>
    level.finish later.1 >>= fun finished => .ok finished.settings

theorem finish_eq_settle (state : Progress Order) : level.finish state = state.settle := by
  unfold Level.finish
  cases state.settle <;> rfl

theorem complete_nil (state : Progress Order) :
    complete state [] = state.settle >>= fun settled => .ok settled.settings := by
  rw [← finish_eq_settle]
  rfl

theorem complete_cons (state : Progress Order) (text : String) (rest : List String) :
    complete state (text :: rest) = level.take state text >>= fun later => complete later rest := by
  have plain : level.isCommand state text = false := by simp [Level.isCommand, level]
  rw [complete, Level.walk, plain]
  cases level.take state text <;> rfl

/-- The name under which errors speak of a kind of setting. -/
def label : Slot → String
  | .emission => "--emit <EMIT>"
  | .path => "-o <OUTPUT>"

def accept : Slot → String → Order → Option Order
  | .emission => fun keyword order =>
      (Emission.read keyword).toOption.map fun emission => { order with emission }
  | .path => fun path order => some { order with path }

def switch : Slot → Switch Order
  | .emission => ⟨some "emit", none, label .emission, .assign (accept .emission)⟩
  | .path => ⟨none, some 'o', label .path, .assign (accept .path)⟩

theorem label_injective {first second : Slot} (same : label first = label second) :
    first = second := by
  revert same
  cases first <;> cases second <;> decide

theorem label_mem_iff {used : List Slot} {slot : Slot} :
    label slot ∈ used.map label ↔ slot ∈ used :=
  List.mem_map.trans
    ⟨fun ⟨_, member, same⟩ => label_injective same ▸ member, fun member => ⟨slot, member, rfl⟩⟩

theorem accept_eq (slot : Slot) {value : String} (given : value ≠ "") (order : Order) :
    accept slot value order = (setting? value slot).map (Setting.apply order) := by
  cases slot with
  | emission =>
      simp only [accept, setting?, Emission.read]
      cases Emission.choices.lookup value <;> rfl
  | path =>
      rw [setting?, if_neg given]
      rfl

theorem setting?_empty (slot : Slot) : setting? "" slot = none := by
  cases slot <;> rfl

/-- How far the reader has come: what it has accepted, and the setting that it still holds, with
or without its value. -/
def progress (escaped : Bool) (order : Order) (used : List Slot)
    (held : Option (Slot × Option String)) : Progress Order where
  settings := order
  used := used.map label
  pending :=
    match held with
    | none => .nothing
    | some (slot, given) => .value (label slot) (accept slot) given
  escaped := escaped

/-- What is accepted once a value has been settled. -/
def settled (order : Order) (used : List Slot) :
    Option (Slot × Option String) → Option (Order × List Slot)
  | none => some (order, used)
  | some (_, none) => none
  | some (slot, some value) =>
      (made used slot value).map fun setting => (setting.apply order, slot :: used)

/-- A step of the reader is refused as expected, or goes on from where it is expected to. -/
def Gives (escaped : Bool) (step : Except Stop (Progress Order))
    (expected : Option (Order × List Slot)) : Prop :=
  (∃ error, step = .error (.refused error) ∧ expected = none) ∨
    ∃ order used, step = .ok (progress escaped order used none) ∧ expected = some (order, used)

theorem gives_assign (escaped : Bool) (order : Order) (used : List Slot) (slot : Slot)
    (value : String) :
    Gives escaped ((progress escaped order used none).assign (label slot) (accept slot) value)
      (settled order used (some (slot, some value))) := by
  unfold Progress.assign Progress.use settled made
  by_cases known : slot ∈ used
  · have noted : (used.map label).contains (label slot) = true :=
      List.contains_iff_mem.mpr (label_mem_iff.mpr known)
    simp only [progress, noted, if_true, known]
    exact .inl ⟨_, rfl, rfl⟩
  · have unnoted : ¬(used.map label).contains (label slot) = true :=
      fun noted => known (label_mem_iff.mp (List.contains_iff_mem.mp noted))
    simp only [progress, unnoted, if_false, known]
    by_cases empty : value = ""
    · simp only [empty, setting?_empty]
      exact .inl ⟨_, rfl, rfl⟩
    · have given : value.isEmpty = false := by simp [empty]
      simp only [given, accept_eq slot empty]
      cases setting? value slot with
      | none => exact .inl ⟨_, rfl, rfl⟩
      | some setting => exact .inr ⟨_, _, rfl, rfl⟩

theorem gives_settle (escaped : Bool) (order : Order) (used : List Slot)
    (held : Option (Slot × Option String)) :
    Gives escaped (progress escaped order used held).settle (settled order used held) := by
  rcases held with _ | ⟨slot, _ | value⟩
  · exact .inr ⟨order, used, rfl, rfl⟩
  · exact .inl ⟨_, rfl, rfl⟩
  · exact gives_assign escaped order used slot value

theorem apply_slot (state : Progress Order) (slot : Slot) (attached : Option String) :
    state.apply (switch slot) attached =
      state.settle >>= fun settled =>
        match attached with
        | some value => settled.assign (label slot) (accept slot) value
        | none => .ok { settled with pending := .value (label slot) (accept slot) none } := by
  unfold Progress.apply
  cases slot <;> cases state.settle <;> cases attached <;> rfl

theorem apply_inform {state : Progress Order} {switch : Switch Order} {text : String}
    (informs : switch.effect = .inform text) :
    state.apply switch none = state.settle >>= fun _ => .error (.informed text) := by
  unfold Progress.apply
  rw [informs]
  cases state.settle <;> rfl

/-- What the reader does with a word, as far as it matters. -/
def Does (state : Progress Order) (text : String) (step : Except Stop (Progress Order)) :
    Word → Prop
  | .dashes => step = .ok { state with escaped := true }
  | .waiting slot => step = state.apply (switch slot) none
  | .joined slot value => step = state.apply (switch slot) (some value)
  | .call => ∃ message, step = state.settle >>= fun _ => .error (.informed message)
  | .plain => step = level.takePlain state text
  | .unknown => ∃ error, step = .error (.refused error)

theorem does_long (state : Progress Order) (text : String) (characters : List Char) :
    Does state text (level.takeLong state characters) (Word.long (Level.splitLong characters)) := by
  unfold Level.takeLong
  obtain ⟨name, attached⟩ := Level.splitLong characters
  by_cases emit : name = "emit"
  · subst emit
    cases attached <;> rfl
  · by_cases help : name = "help"
    · subst help
      cases attached with
      | none => exact ⟨_, apply_inform rfl⟩
      | some value => exact ⟨_, rfl⟩
    · by_cases version : name = "version"
      · subst version
        cases attached with
        | none => exact ⟨_, apply_inform rfl⟩
        | some value => exact ⟨_, rfl⟩
      · have unlisted : level.switches.find? (fun switch => switch.long == some name) = none := by
          simp [level, Ne.symm emit, Ne.symm help, Ne.symm version]
        have unknown : Word.long (name, attached) = .unknown := by
          simp [Word.long, emit, help, version]
        simp only [unlisted, unknown]
        exact ⟨_, rfl⟩

theorem takeCluster_inform {state : Progress Order} {letter : Char} {switch : Switch Order}
    {message : String} (rest : List Char)
    (found : level.switches.find? (fun switch => switch.short == some letter) = some switch)
    (informs : switch.effect = .inform message) :
    level.takeCluster state (letter :: rest) =
      state.settle >>= fun _ => .error (.informed message) := by
  unfold Level.takeCluster
  simp only [found, informs, apply_inform informs]
  cases state.settle <;> rfl

theorem does_cluster (state : Progress Order) (text : String) (letter : Char)
    (rest : List Char) :
    Does state text (level.takeCluster state (letter :: rest)) (Word.cluster letter rest) := by
  by_cases output : letter = 'o'
  · subst output
    have valued : Word.cluster 'o' rest = Word.valued .path (Level.clusterValue rest) := rfl
    unfold Level.takeCluster
    rw [valued]
    cases Level.clusterValue rest <;> rfl
  · by_cases help : letter = 'h'
    · subst help
      exact ⟨_, takeCluster_inform rest rfl rfl⟩
    · by_cases version : letter = 'V'
      · subst version
        exact ⟨_, takeCluster_inform rest rfl rfl⟩
      · have unlisted :
            level.switches.find? (fun switch => switch.short == some letter) = none := by
          simp [level, Ne.symm output, Ne.symm help, Ne.symm version]
        have unknown : Word.cluster letter rest = .unknown := by
          simp [Word.cluster, output, help, version]
        unfold Level.takeCluster
        simp only [unlisted, unknown]
        exact ⟨_, rfl⟩

theorem does_take (state : Progress Order) (unescaped : state.escaped = false) (text : String) :
    Does state text (level.take state text) (Word.of text) := by
  unfold Level.take
  rw [unescaped, if_neg Bool.false_ne_true]
  split
  case h_1 same =>
      obtain rfl : text = "--" := String.toList_inj.mp same
      rfl
  case h_2 characters longer same =>
      rw [Word.of_long longer same]
      exact does_long state text characters
  case h_3 letter rest _ short same =>
      rw [Word.of_cluster short same]
      exact does_cluster state text letter rest
  case h_4 unlike =>
      rw [Word.of_plain (Word.isPlain_of_ne unlike)]
      rfl

/-! ## The verdict of the reader -/

variable {escaped : Bool} {order : Order} {used : List Slot}

/-- The verdict on what is left, once a step has led to what is expected. -/
def after (words : List String) : Option (Order × List Slot) → Verdict
  | none => .refused
  | some (order, used) => .on order (scan used words)

theorem of_bind {step : Except Stop (Progress Order)} {target : Option (Order × List Slot)}
    (gives : Gives escaped step target) {next : Progress Order → Except Stop Order}
    {words : List String}
    (follows : ∀ {order : Order} {used : List Slot},
      Verdict.of (next (progress escaped order used none)) = .on order (scan used words)) :
    Verdict.of (step >>= next) = after words target := by
  rcases gives with ⟨error, rfl, rfl⟩ | ⟨order, used, rfl, rfl⟩
  · rfl
  · exact follows

theorem after_of_scan_eq_none {words : List String} (unread : ∀ used, scan used words = none)
    (target : Option (Order × List Slot)) : after words target = .refused := by
  cases target with
  | none => rfl
  | some later => simp only [after, unread, Verdict.on]

theorem on_scan_of_joined {text value : String} {slot : Slot}
    (met : Word.of text = .joined slot value) (rest : List String) :
    Verdict.on order (scan used (text :: rest)) =
      after rest (settled order used (some (slot, some value))) := by
  simp only [scan, met, settled]
  cases made used slot value with
  | none => rfl
  | some setting => exact Verdict.on_prepend order setting _

/-- The verdict on what is left: a plain word first completes a setting without a value. -/
def expected (order : Order) (used : List Slot) :
    Option (Slot × Option String) → List String → Verdict
  | some (slot, none), value :: rest =>
      if Word.of value = .plain then after rest (settled order used (some (slot, some value)))
      else .refused
  | held, words => after words (settled order used held)

theorem expected_nil (held : Option (Slot × Option String)) :
    expected order used held [] = after [] (settled order used held) := by
  rcases held with _ | ⟨slot, _ | value⟩ <;> rfl

theorem expected_cons {text : String} (dashed : Word.of text ≠ .plain)
    (held : Option (Slot × Option String)) (rest : List String) :
    expected order used held (text :: rest) = after (text :: rest) (settled order used held) := by
  rcases held with _ | ⟨slot, _ | value⟩
  · rfl
  · exact if_neg dashed
  · rfl

theorem on_scan_of_waiting {text : String} {slot : Slot} (met : Word.of text = .waiting slot)
    (rest : List String) :
    Verdict.on order (scan used (text :: rest)) = expected order used (some (slot, none)) rest := by
  cases rest with
  | nil =>
      simp only [scan, met]
      rfl
  | cons value behind =>
      by_cases plain : Word.of value = .plain
      · simp only [scan, met, expected, plain, if_true, settled]
        cases made used slot value with
        | none => rfl
        | some setting => exact Verdict.on_prepend order setting _
      · simp only [scan, met, expected, plain, if_false]
        rfl

theorem of_complete_nil (held : Option (Slot × Option String)) :
    Verdict.of (complete (progress escaped order used held) []) =
      after [] (settled order used held) := by
  rw [complete_nil]
  exact of_bind (gives_settle escaped order used held) rfl

/-- Two dashes are followed by nothing but operands, of which there are none. -/
theorem of_complete_escaped (held : Option (Slot × Option String)) (words : List String) :
    Verdict.of (complete (progress true order used held) words) =
      if words.isEmpty then after [] (settled order used held) else .refused := by
  cases words with
  | nil => exact of_complete_nil held
  | cons text rest =>
      rw [complete_cons]
      rfl

/-- Accepting values late leads to the same verdict as accepting them at once. -/
theorem of_complete (held : Option (Slot × Option String)) (words : List String) :
    Verdict.of (complete (progress false order used held) words) =
      expected order used held words := by
  induction words generalizing order used held with
  | nil => rw [of_complete_nil, expected_nil]
  | cons text rest ih =>
      have step := does_take (progress false order used held) rfl text
      have settles := gives_settle false order used held
      rw [complete_cons]
      cases met : Word.of text with
      | plain =>
          rw [met, Does] at step
          rw [step]
          have unread (noted : List Slot) := scan_of_unread (.inl met) noted rest
          rcases held with _ | ⟨slot, _ | value⟩
          · exact (after_of_scan_eq_none unread (settled order used none)).symm
          · exact (ih (some (slot, some text))).trans (if_pos met).symm
          · exact (after_of_scan_eq_none unread (settled order used (some (slot, some value)))).symm
      | unknown =>
          rw [met, Does] at step
          obtain ⟨error, stops⟩ := step
          have unread (noted : List Slot) := scan_of_unread (.inr met) noted rest
          rw [stops, expected_cons (by simp [met]), after_of_scan_eq_none unread]
          rfl
      | dashes =>
          rw [met, Does] at step
          rw [step, expected_cons (by simp [met])]
          have escapes :
              Verdict.of (complete (progress true order used held) rest) = _ :=
            of_complete_escaped held rest
          refine escapes.trans ?_
          simp only [after, scan, met]
          cases settled order used held <;> cases rest <;> rfl
      | call =>
          rw [met, Does] at step
          obtain ⟨message, informs⟩ := step
          rw [informs, expected_cons (by simp [met]), bind_assoc]
          refine of_bind settles fun {later noted} => ?_
          simp only [scan, met]
          rfl
      | waiting slot =>
          rw [met, Does, apply_slot] at step
          rw [step, expected_cons (by simp [met]), bind_assoc]
          exact of_bind settles ((ih (some (slot, none))).trans (on_scan_of_waiting met rest).symm)
      | joined slot value =>
          rw [met, Does, apply_slot] at step
          rw [step, expected_cons (by simp [met]), bind_assoc]
          refine of_bind settles fun {later noted} => ?_
          rw [on_scan_of_joined met]
          exact of_bind (gives_assign false later noted slot value) (ih none)

theorem readOrder_eq_complete (arguments : List String) :
    readOrder arguments = complete (progress false standard [] none) arguments := by
  have start : Progress.start standard = progress false standard [] none := rfl
  unfold readOrder Level.read complete
  rw [← standard, start]
  cases level.walk (progress false standard [] none) arguments with
  | error stop => rfl
  | ok later =>
      change _ = level.finish later.1 >>= fun finished => .ok finished.settings
      dsimp only
      cases level.finish later.1 <;> rfl

theorem of_readOrder (arguments : List String) :
    Verdict.of (readOrder arguments) = .on standard (scan [] arguments) := by
  rw [readOrder_eq_complete, of_complete]
  rfl

namespace Verdict

theorem of_eq_ordered_iff {result : Except Stop Order} {order : Order} :
    of result = .ordered order ↔ result = .ok order := by
  rcases result with (error | text) | made <;> simp [of]

theorem of_eq_asked_iff {result : Except Stop Order} :
    of result = .asked ↔ ∃ text, result = .error (.informed text) := by
  rcases result with (error | text) | made <;> simp [of]

theorem on_eq_ordered_iff {scanned : Option (List Setting × Bool)} {start order : Order} :
    on start scanned = .ordered order ↔
      ∃ settings, scanned = some (settings, false) ∧
        settings.foldl Setting.apply start = order := by
  rcases scanned with _ | ⟨settings, _ | _⟩ <;> simp [on]

theorem on_eq_asked_iff {scanned : Option (List Setting × Bool)} {start : Order} :
    on start scanned = .asked ↔ ∃ settings, scanned = some (settings, true) := by
  rcases scanned with _ | ⟨settings, _ | _⟩ <;> simp [on]

end Verdict

/-- A command line is accepted exactly if it makes an order, and what is read is that order. -/
theorem readOrder_eq_ok_iff {arguments : List String} {order : Order} :
    readOrder arguments = .ok order ↔ Orders arguments order := by
  rw [← Verdict.of_eq_ordered_iff, of_readOrder, Verdict.on_eq_ordered_iff]
  simp only [scan_start_iff, Orders, and_assoc]

/-- The program tells of itself exactly if the command line asks for it. -/
theorem readOrder_informs_iff {arguments : List String} :
    (∃ text, readOrder arguments = .error (.informed text)) ↔ Asks arguments := by
  rw [← Verdict.of_eq_asked_iff, of_readOrder, Verdict.on_eq_asked_iff]
  simp only [scan_start_iff, Asks]

theorem orders_unique {arguments : List String} {first second : Order}
    (one : Orders arguments first) (other : Orders arguments second) : first = second := by
  rw [← readOrder_eq_ok_iff] at one other
  exact Except.ok.inj (one.symm.trans other)

theorem not_asks_of_orders {arguments : List String} {order : Order}
    (orders : Orders arguments order) : ¬Asks arguments := by
  rw [← readOrder_eq_ok_iff] at orders
  rw [← readOrder_informs_iff]
  rintro ⟨text, informed⟩
  cases orders.symm.trans informed

end Opcodes.Proofs.Acceptance

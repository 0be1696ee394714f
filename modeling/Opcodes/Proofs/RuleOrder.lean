import Mathlib.Logic.Relation
import Opcodes.Avc2

/-!
# Revisions of a list of rules

The order of two rules matters only for the bytes that both accept. So a list of
rules may be revised by exchanging neighbours that share no byte, and by removing
a rule whose bytes are all accepted earlier. Any number of such revisions leaves
every byte with its governing rule, and so with its instruction.
-/

namespace Opcodes.Proofs.RuleOrder

/-! ## Single revisions -/

/-- No byte belongs to both patterns. -/
def Apart (first second : Pattern) : Prop :=
  ∀ byte, first.accepts byte = true → second.accepts byte = false

/-- Every byte of the pattern is accepted by one of the rules. -/
def Covered (rules : List Rule) (pattern : Pattern) : Prop :=
  ∀ byte, pattern.accepts byte = true → ∃ rule ∈ rules, rule.pattern.accepts byte = true

-- The bytes are tried in their list, whatever other instances there are.
instance {first second : Pattern} : Decidable (Apart first second) :=
  @decidable_of_iff _ (∀ byte ∈ Byte.all, first.accepts byte = true → second.accepts byte = false)
    ⟨fun all byte => all byte (Byte.mem_all byte), fun apart byte _ => apart byte⟩
    (List.decidableBAll _ Byte.all)

instance {rules : List Rule} {pattern : Pattern} : Decidable (Covered rules pattern) :=
  @decidable_of_iff _ (∀ byte ∈ Byte.all, pattern.accepts byte = true →
      ∃ rule ∈ rules, rule.pattern.accepts byte = true)
    ⟨fun all byte => all byte (Byte.mem_all byte), fun covered byte _ => covered byte⟩
    (List.decidableBAll _ Byte.all)

/-- One change of a list of rules that does not touch the order of overlapping ones: neighbours
without a common byte change places, or a rule goes of which earlier rules leave nothing. -/
inductive Revision : List Rule → List Rule → Prop where
  | exchange (before : List Rule) {first second : Rule} (after : List Rule)
      (apart : Apart first.pattern second.pattern) :
      Revision (before ++ first :: second :: after) (before ++ second :: first :: after)
  | remove (before : List Rule) {rule : Rule} (after : List Rule)
      (covered : Covered before rule.pattern) :
      Revision (before ++ rule :: after) (before ++ after)

variable {naming : Naming} {before after : List Rule} {byte : UInt8}

/-- The rules of an appended list count only where no earlier rule accepts the byte. -/
theorem governing?_append (first second : List Rule) :
    (InstructionSet.mk naming (first ++ second)).governing? byte =
      ((InstructionSet.mk naming first).governing? byte).or
        ((InstructionSet.mk naming second).governing? byte) :=
  List.find?_append

theorem governing?_cons (rule : Rule) (rest : List Rule) :
    (InstructionSet.mk naming (rule :: rest)).governing? byte =
      if rule.pattern.accepts byte then some rule
      else (InstructionSet.mk naming rest).governing? byte := by
  unfold InstructionSet.governing?
  rw [List.find?_cons]
  cases rule.pattern.accepts byte <;> rfl

theorem governing?_exchange {first second : Rule} (apart : Apart first.pattern second.pattern) :
    (InstructionSet.mk naming (before ++ second :: first :: after)).governing? byte =
      (InstructionSet.mk naming (before ++ first :: second :: after)).governing? byte := by
  simp only [governing?_append, governing?_cons]
  cases accepted : first.pattern.accepts byte with
  | false => rfl
  | true => simp [apart byte accepted]

theorem governing?_remove {rule : Rule} (covered : Covered before rule.pattern) :
    (InstructionSet.mk naming (before ++ after)).governing? byte =
      (InstructionSet.mk naming (before ++ rule :: after)).governing? byte := by
  rw [governing?_append, governing?_append, governing?_cons]
  cases accepted : rule.pattern.accepts byte with
  | false => rfl
  | true =>
      have governed : ((InstructionSet.mk naming before).governing? byte).isSome = true :=
        List.find?_isSome.mpr (covered byte accepted)
      rw [Option.or_of_isSome governed, Option.or_of_isSome governed]

/-- A revision leaves every byte with its governing rule. -/
theorem Revision.governing? {rules revised : List Rule} (revision : Revision rules revised)
    (byte : UInt8) :
    (InstructionSet.mk naming revised).governing? byte =
      (InstructionSet.mk naming rules).governing? byte := by
  cases revision with
  | exchange before after apart => exact governing?_exchange apart
  | remove before after covered => exact governing?_remove covered

/-! ## Revisions in turn -/

/-- The rules have a part in decoding a byte only through the one that governs it. -/
theorem resolve_eq_of_governing? {rules revised : List Rule}
    (same : (InstructionSet.mk naming revised).governing? byte =
      (InstructionSet.mk naming rules).governing? byte) :
    (InstructionSet.mk naming revised).resolve byte =
      (InstructionSet.mk naming rules).resolve byte := by
  unfold InstructionSet.resolve
  rw [same]
  rfl

/-- However often a list of rules is revised, each byte keeps its instruction and its rule. -/
theorem revisions_keep_resolutions (naming : Naming) {rules revised : List Rule}
    (revisions : Relation.ReflTransGen Revision rules revised) (byte : UInt8) :
    (InstructionSet.mk naming revised).resolve byte =
      (InstructionSet.mk naming rules).resolve byte := by
  induction revisions with
  | refl => rfl
  | tail earlier revision ih => exact (resolve_eq_of_governing? (revision.governing? byte)).trans ih

/-- A rule for some of the stack shuffles, of which the rule for all of them leaves nothing. -/
def spareShuffle : Rule :=
  ⟨"kept shuffle", .families Avc2.firstShuffle Avc2.lastShuffle Mode.keep.mask 0, .undefined⟩

/-- The rules of the machine with the return from interrupt in front of the reserved families. -/
def interruptFirst : List Rule :=
  Avc2.rules.take 5 ++ ((Avc2.rules.drop 5).take 2).reverse ++ Avc2.rules.drop 7

theorem avc2_revisions_keep_resolutions :
    Relation.ReflTransGen Revision (Avc2.rules ++ [spareShuffle]) interruptFirst ∧
      ∀ byte, (InstructionSet.mk Avc2.naming interruptFirst).resolve byte =
        (InstructionSet.mk Avc2.naming (Avc2.rules ++ [spareShuffle])).resolve byte := by
  have removed : Revision (Avc2.rules ++ [spareShuffle]) (Avc2.rules ++ []) :=
    .remove Avc2.rules [] (by decide +kernel)
  have exchanged : Revision (Avc2.rules ++ []) interruptFirst :=
    .exchange (Avc2.rules.take 5) (Avc2.rules.drop 7) (by decide +kernel)
  have revisions := (Relation.ReflTransGen.single removed).tail exchanged
  exact ⟨revisions, revisions_keep_resolutions Avc2.naming revisions⟩

-- The last two rules share a byte, so they must not change places.
example : (InstructionSet.mk Avc2.naming
      (Avc2.rules.take 6 ++ (Avc2.rules.drop 6).reverse)).resolve 0x83 ≠
    Avc2.instructionSet.resolve 0x83 := by
  decide

end Opcodes.Proofs.RuleOrder

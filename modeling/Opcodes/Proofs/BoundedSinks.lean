import Opcodes.Listing.Find
import Opcodes.Listing.Grid
import Opcodes.Listing.Lines
import Opcodes.Listing.Lookup
import Opcodes.Source

/-!
# Reports on a sink with little room

A sink with room for so many bytes holds the first so many of all that it has
been offered, however these were cut into writes. A report is offered piece by
piece, up to the first write that fails. So a bounded sink holds exactly a
beginning of each report, and the writer fails exactly if that is not the
whole.
-/

namespace Opcodes.Proofs.BoundedSinks

/-! ## Writes in turn -/

/-- Writes in turn, up to the first that fails, and tells whether none did. -/
def writeAll : Sink → List (List UInt8) → Sink × Bool
  | sink, [] => (sink, true)
  | sink, bytes :: rest =>
      let written := sink.write bytes
      if written.2 then writeAll written.1 rest else (written.1, false)

theorem writeSpans_eq (medium : Medium) (sink : Sink) (spans : List Span) :
    Document.writeSpans medium sink spans = writeAll sink (spans.map (Span.bytes medium)) := by
  induction spans generalizing sink with
  | nil => rfl
  | cons span rest ih => simp only [Document.writeSpans, List.map_cons, writeAll, ih]

theorem writeAll_unbounded (held : List UInt8) (writes : List (List UInt8)) :
    writeAll ⟨held, none⟩ writes = (⟨held ++ writes.flatten, none⟩, true) := by
  induction writes generalizing held with
  | nil => simp [writeAll]
  | cons bytes rest ih => simp [writeAll, Sink.write, ih]

/-- If a write fails, it is the last one: the sink stays as that write has left it. -/
theorem exists_last_write {sink : Sink} {writes : List (List UInt8)}
    (failed : (writeAll sink writes).2 = false) :
    ∃ before failing after, writes = before ++ failing :: after ∧
      (writeAll sink before).2 = true ∧
      (writeAll sink before).1.write failing = ((writeAll sink writes).1, false) := by
  induction writes generalizing sink with
  | nil => cases failed
  | cons bytes rest ih =>
      cases fits : (sink.write bytes).2 with
      | false =>
          refine ⟨[], bytes, rest, rfl, rfl, ?_⟩
          simp [writeAll, fits, Prod.ext_iff]
      | true =>
          have step (later : List (List UInt8)) :
              writeAll sink (bytes :: later) = writeAll (sink.write bytes).1 later := by
            simp [writeAll, fits]
          rw [step] at failed
          obtain ⟨before, failing, after, split, passed, last⟩ := ih failed
          refine ⟨bytes :: before, failing, after, by rw [split, List.cons_append], ?_, ?_⟩
          · rw [step, passed]
          · rw [step, step, last]

/-! ## What a bounded sink holds -/

/-- A sink that was empty, with room up to the limit, has been offered these bytes since. -/
def Offered (limit : Nat) (sink : Sink) (bytes : List UInt8) : Prop :=
  sink = ⟨bytes.take limit, some (limit - bytes.length)⟩

variable {limit : Nat} {sink : Sink} {offered : List UInt8}

theorem offered_empty (limit : Nat) : Offered limit (.empty (some limit)) [] := by
  simp [Offered, Sink.empty]

theorem Offered.write (before : Offered limit sink offered) (bytes : List UInt8) :
    Offered limit (sink.write bytes).1 (offered ++ bytes) := by
  rw [Offered] at before ⊢
  rw [before, List.take_append, List.length_append, Nat.sub_add_eq]
  rfl

theorem Offered.write_eq_true_iff (before : Offered limit sink offered)
    (room : offered.length ≤ limit) (bytes : List UInt8) :
    (sink.write bytes).2 = true ↔ (offered ++ bytes).length ≤ limit := by
  rw [Offered] at before
  have verdict : (sink.write bytes).2 = decide (bytes.length ≤ limit - offered.length) := by
    rw [before]
    rfl
  rw [verdict, decide_eq_true_iff, List.length_append]
  omega

/-- A full sink does not tell whether more has been offered. -/
theorem Offered.append_of_full (before : Offered limit sink offered)
    (full : limit ≤ offered.length) (more : List UInt8) :
    Offered limit sink (offered ++ more) := by
  rw [Offered] at before ⊢
  rw [before, List.take_append_of_le_length full, List.length_append]
  congr 2
  omega

/-- Writing in turn offers everything, in effect, and succeeds exactly if everything fits. -/
theorem Offered.writeAll (before : Offered limit sink offered) (room : offered.length ≤ limit)
    (writes : List (List UInt8)) :
    Offered limit (writeAll sink writes).1 (offered ++ writes.flatten) ∧
      ((BoundedSinks.writeAll sink writes).2 = true ↔
        (offered ++ writes.flatten).length ≤ limit) := by
  induction writes generalizing sink offered with
  | nil =>
      rw [List.flatten_nil, List.append_nil]
      exact ⟨before, iff_of_true rfl room⟩
  | cons bytes rest ih =>
      have after := before.write bytes
      have verdict := before.write_eq_true_iff room bytes
      rw [List.flatten_cons, ← List.append_assoc]
      cases fits : (sink.write bytes).2 with
      | true =>
          simp only [BoundedSinks.writeAll, fits, if_true]
          exact ih after (verdict.mp fits)
      | false =>
          have full : limit < (offered ++ bytes).length := by
            rw [fits] at verdict
            exact Nat.lt_of_not_le fun small => Bool.false_ne_true (verdict.mpr small)
          simp only [BoundedSinks.writeAll, fits, Bool.false_eq_true, if_false]
          refine ⟨after.append_of_full (Nat.le_of_lt full) rest.flatten, iff_of_false id ?_⟩
          rw [List.length_append]
          omega

/-- What becomes of writes to an empty sink depends on their bytes alone, not on where they are
cut. -/
theorem writeAll_empty (limit : Nat) (writes : List (List UInt8)) :
    writeAll (.empty (some limit)) writes =
      (⟨writes.flatten.take limit, some (limit - writes.flatten.length)⟩,
        decide (writes.flatten.length ≤ limit)) := by
  obtain ⟨kept, verdict⟩ := (offered_empty limit).writeAll (Nat.zero_le limit) writes
  rw [List.nil_append] at kept verdict
  refine Prod.ext kept ?_
  rw [Bool.eq_iff_iff, verdict, decide_eq_true_iff]

/-! ## Documents -/

def bytes (medium : Medium) (document : Document) : List UInt8 :=
  (document.render medium).toUTF8.data.toList

theorem flatten_bytes (medium : Medium) (document : Document) :
    (document.spans.map (Span.bytes medium)).flatten = bytes medium document := by
  unfold bytes Document.render
  induction document.spans with
  | nil => rfl
  | cons span rest ih =>
      rw [List.map_cons, List.flatten_cons, ih, List.map_cons, String.join_cons]
      simp [Span.bytes, String.toUTF8]

theorem write_unbounded (medium : Medium) (document : Document) :
    document.write medium (.empty none) =
      (⟨bytes medium document, none⟩, document.complaint) := by
  rw [Document.write, writeSpans_eq, Sink.empty, writeAll_unbounded, flatten_bytes,
    List.nil_append]
  rfl

theorem write_bounded (medium : Medium) (document : Document) (limit : Nat) :
    document.write medium (.empty (some limit)) =
      (⟨(bytes medium document).take limit, some (limit - (bytes medium document).length)⟩,
        if (bytes medium document).length ≤ limit then document.complaint
        else some document.overflow) := by
  rw [Document.write, writeSpans_eq, writeAll_empty, flatten_bytes]
  simp only [decide_eq_true_eq]

/-! ## Reports -/

/-- What can be written about a table. -/
inductive Report where
  | grid
  | lines (all : Bool)
  | lookup (byte : UInt8)
  | find (mnemonics : List String)
  | source (emission : Emission)
deriving DecidableEq, Repr

namespace Report

def document (naming : Naming) (table : Table) : Report → Document
  | grid => Listing.Grid.document table
  | lines all => Listing.Lines.document all table
  | lookup byte => Listing.Lookup.document naming table byte
  | find mnemonics => Listing.Find.document table mnemonics
  | source emission => Source.document table emission

/-- What is said of a sink without room. The formatter of source text passes no cause on. -/
def overflow : Report → Failure
  | source _ => ⟨"an error occurred when formatting an argument", none⟩
  | _ => ⟨"writer is full", none⟩

/-- Writes a report to an empty sink. -/
def write (naming : Naming) (table : Table) (medium : Medium) (report : Report)
    (room : Option Nat) : Sink × Option WriteError :=
  (report.document naming table).write medium (.empty room)

theorem failure_overflow (naming : Naming) (table : Table) (report : Report) :
    (report.document naming table).overflow.failure = report.overflow := by
  cases report <;> rfl

end Report

/-- A bounded sink holds exactly a beginning of the text that an unbounded one is given. If that is
not the whole, the lack of room is what is reported, whatever else is wrong; if it is, the outcome
is the same. Any way of cutting the text into writes has the same effect, and where a write fails,
no later one is made. -/
theorem write_keeps_beginning (naming : Naming) (table : Table) (medium : Medium)
    (report : Report) (limit : Nat) :
    ∃ text complaint,
      report.write naming table medium none = (⟨text, none⟩, complaint) ∧
      text = bytes medium (report.document naming table) ∧
      (report.write naming table medium (some limit)).1.held =
        text.take (min limit text.length) ∧
      (limit < text.length →
        (report.write naming table medium (some limit)).2.map WriteError.failure =
          some report.overflow) ∧
      (text.length ≤ limit → (report.write naming table medium (some limit)).2 = complaint) ∧
      ∀ writes : List (List UInt8), writes.flatten = text →
        writeAll (.empty (some limit)) writes =
            ((report.write naming table medium (some limit)).1,
              decide (text.length ≤ limit)) ∧
          (limit < text.length →
            ∃ before failing after, writes = before ++ failing :: after ∧
              (writeAll (.empty (some limit)) before).2 = true ∧
              (writeAll (.empty (some limit)) before).1.write failing =
                ((report.write naming table medium (some limit)).1, false)) := by
  have bounded := write_bounded medium (report.document naming table) limit
  have failure := report.failure_overflow naming table
  refine ⟨_, _, write_unbounded medium (report.document naming table), rfl, ?_, ?_, ?_, ?_⟩
  · rw [Report.write, bounded, ← List.take_eq_take_min]
  · intro short
    rw [Report.write, bounded, if_neg (Nat.not_le_of_lt short), Option.map_some, failure]
  · intro enough
    rw [Report.write, bounded, if_pos enough]
  · intro writes cut
    have whole : writeAll (.empty (some limit)) writes =
        ((report.write naming table medium (some limit)).1,
          decide ((bytes medium (report.document naming table)).length ≤ limit)) := by
      rw [writeAll_empty, cut, Report.write, bounded]
    refine ⟨whole, ?_⟩
    intro short
    have failed : (writeAll (.empty (some limit)) writes).2 = false := by
      rw [whole, decide_eq_false_iff_not]
      exact Nat.not_le_of_lt short
    obtain ⟨before, failing, after, split, passed, last⟩ := exists_last_write failed
    rw [whole] at last
    exact ⟨before, failing, after, split, passed, last⟩

end Opcodes.Proofs.BoundedSinks

import R503.Segments
import R503.SerialLines

/-! Which lines the Nano's `loop` passes on, from the stream it receives (r503fp.ino). The buffer is emptied in the
middle of an overlong line, and what follows is taken for a line of its own. -/
namespace R503.Firmware

open Text

def loopTo (inbuf : Bytes) : Bytes → Bytes × List LoopEvent
  | [] => (inbuf,[])
  | c :: input =>
    let (rest,events) := loopTo (loopChar inbuf c).1 input
    (rest,(loopChar inbuf c).2.toList ++ events)

def react (libs : Nat → Library) (lines : Nat) (e : Eeprom) : List LoopEvent → List Effect
  | [] => []
  | .overflow :: events => .serial (ascii "ERR bad_args overflow") :: react libs lines e events
  | .line text :: events =>
    let effects := processLine e (libs lines) text
    effects ++ react libs (lines + 1) (effects.foldl Effect.apply e) events

def LoopEvent.text : LoopEvent → Option Bytes
  | .line text => some text
  | .overflow => none

def processed (input : Bytes) : List Bytes := (loopTo [] input).2.filterMap LoopEvent.text

def endsLine (c : UInt8) : Bool := c = lineFeed ∨ c = carriageReturn

def leftover (segment : Bytes) : Bytes := segment.drop (segment.length / 128 * 128)

/-! ### One character after the other -/

theorem loopTo_append (inbuf front back : Bytes) : loopTo inbuf (front ++ back) =
    ((loopTo (loopTo inbuf front).1 back).1,(loopTo inbuf front).2 ++ (loopTo (loopTo inbuf front).1 back).2) := by
  induction front generalizing inbuf with
  | nil => rfl
  | cons c front ih => simp only [List.cons_append,loopTo,ih,List.append_assoc]

theorem loopRun_react (libs : Nat → Library) (lines : Nat) (e : Eeprom) (inbuf input : Bytes) :
    loopRun libs lines e inbuf input = react libs lines e (loopTo inbuf input).2 := by
  induction input generalizing lines e inbuf with
  | nil => rfl
  | cons c input ih =>
    rw [loopRun,loopTo]
    rcases loopChar inbuf c with ⟨inbuf,none | event⟩
    · exact ih ..
    · cases event with
      | overflow => exact congrArg _ (ih ..)
      | line text => exact congrArg _ (ih ..)

theorem leftover_snoc (segment : Bytes) (c : UInt8) :
    leftover (segment ++ [c]) = if (leftover segment ++ [c]).length ≥ 128 then [] else leftover segment ++ [c] := by
  have size : (leftover segment ++ [c]).length = segment.length % 128 + 1 := by
    rw [List.length_append,leftover,List.length_drop,List.length_singleton]
    omega
  rw [size]
  unfold leftover
  rw [List.length_append,List.length_singleton]
  split
  next full => exact List.drop_eq_nil_of_le (by rw [List.length_append,List.length_singleton]; omega)
  next room =>
    have same : (segment.length + 1) / 128 = segment.length / 128 := by omega
    rw [same,List.drop_append_of_le_length (Nat.div_mul_le_self ..)]

/-- The buffer holds what is left over of the open segment, and every segment ended with a call for what was
left over of it. -/
theorem loopTo_segments (input : Bytes) :
    (loopTo [] input).1 = leftover (Segments.pending endsLine input) ∧
      processed input = ((Segments.ended endsLine input).map leftover).filter (· ≠ []) := by
  induction input using List.reverseRecOn with
  | nil => exact ⟨rfl,rfl⟩
  | append_singleton input c ih =>
    obtain ⟨buffer,calls⟩ := ih
    obtain ⟨ended,pending⟩ := Segments.append (p := endsLine) input [c]
    rw [ended,pending,processed,loopTo_append,buffer,List.filterMap_append,← processed,calls]
    have clean := Segments.pending_open (p := endsLine) input
    generalize Segments.pending endsLine input = segment at clean ⊢
    have one : loopTo (leftover segment) [c] =
        ((loopChar (leftover segment) c).1,(loopChar (leftover segment) c).2.toList) := by simp [loopTo]
    rw [one]
    by_cases ends : endsLine c = true
    · obtain ⟨first,rest⟩ := Segments.ended_cons clean c ends []
      have last : c = lineFeed ∨ c = carriageReturn := of_decide_eq_true ends
      rw [first,rest,Segments.ended_nil,Segments.pending_nil,List.map_append,List.filter_append,List.map_singleton,
        loopChar,if_pos last]
      generalize leftover segment = inbuf
      cases inbuf with
      | nil => exact ⟨rfl,rfl⟩
      | cons x inbuf => exact ⟨rfl,rfl⟩
    · have more : ∀ x ∈ segment ++ [c], endsLine x = false :=
        List.forall_mem_append.mpr ⟨clean,by simpa using ends⟩
      obtain ⟨none_,all⟩ := Segments.clean_pending more
      have grows : ¬ (c = lineFeed ∨ c = carriageReturn) := fun last => ends (decide_eq_true last)
      rw [none_,all,leftover_snoc,List.append_nil,loopChar,if_neg grows]
      generalize leftover segment ++ [c] = inbuf
      by_cases full : inbuf.length ≥ 128
      · rw [if_pos full,if_pos full]
        exact ⟨rfl,List.append_nil _⟩
      · rw [if_neg full,if_neg full]
        exact ⟨rfl,List.append_nil _⟩

/-! ### Overlong lines -/

def Short (segment : Bytes) : Prop := 1 ≤ segment.length ∧ segment.length ≤ 127

instance (segment : Bytes) : Decidable (Short segment) := inferInstanceAs (Decidable (_ ∧ _))

theorem leftover_short {segment : Bytes} (small : segment.length ≤ 127) : leftover segment = segment := by
  rw [leftover,Nat.div_eq_of_lt (by omega)]
  rfl

/-- Nothing is left over of the multiples of the buffer's size. -/
theorem leftover_nil_iff (segment : Bytes) : leftover segment = [] ↔ segment.length % 128 = 0 := by
  rw [leftover,List.drop_eq_nil_iff]
  omega

theorem leftover_of_short {segment : Bytes} (short : Short segment) : leftover segment ≠ [] := by
  rw [leftover_short short.2]
  exact List.length_pos_iff.mp short.1

/-- Every short segment is one of the calls. -/
theorem short_le_leftovers (segments : List Bytes) :
    (segments.filter (Short ·)).length ≤ ((segments.map leftover).filter (· ≠ [])).length := by
  rw [← List.countP_eq_length_filter,← List.countP_eq_length_filter,List.countP_map]
  refine List.countP_mono_left fun segment _ short => ?_
  exact decide_eq_true (leftover_of_short (of_decide_eq_true short))

theorem leftovers_iff (segments : List Bytes) :
    (segments.map leftover).filter (· ≠ []) = segments.filter (Short ·) ↔
      ∀ segment ∈ segments, 128 ≤ segment.length → segment.length % 128 = 0 := by
  induction segments with
  | nil => exact iff_of_true rfl fun _ none => by cases none
  | cons segment segments ih =>
    rw [List.forall_mem_cons,List.map_cons,List.filter_cons,List.filter_cons]
    by_cases short : Short segment
    · rw [if_pos (decide_eq_true (leftover_of_short short)),if_pos (decide_eq_true short),leftover_short short.2,
        List.cons_inj_right,ih]
      have fits := short.2
      exact (and_iff_right fun long => by omega).symm
    · rw [if_neg (c := decide (Short segment) = true) (by simpa using short)]
      by_cases gone : leftover segment = []
      · rw [if_neg (by simpa using gone),ih]
        exact (and_iff_right fun _ => (leftover_nil_iff segment).mp gone).symm
      · rw [if_pos (by simpa using gone)]
        -- one call more than there are short segments
        refine iff_of_false (fun same => ?_) fun whole => ?_
        · have counted := short_le_leftovers segments
          rw [← same,List.length_cons] at counted
          omega
        · have rest := mt (leftover_nil_iff segment).mpr gone
          unfold Short at short
          exact rest (whole.1 (by omega))

/-- `process_line` is called for exactly the segments of 1 to 127 bytes, in order and with exactly their bytes,
if and only if the length of every longer one is a multiple of 128. -/
theorem overlong_lines_dropped (input : Bytes) :
    processed input = (Segments.ended endsLine input).filter (Short ·) ↔
      ∀ segment ∈ Segments.ended endsLine input, 128 ≤ segment.length → segment.length % 128 = 0 := by
  rw [(loopTo_segments input).2]
  exact leftovers_iff _

/-- 128 bytes of noise and a command behind them, which is no line. -/
theorem overlong_tail_runs :
    processed (List.replicate 128 65 ++ ascii "clear confirm" ++ [lineFeed]) = [ascii "clear confirm"] ∧
      (Segments.ended endsLine (List.replicate 128 65 ++ ascii "clear confirm" ++ [lineFeed])).filter (Short ·) = [] := by
  decide +kernel

end R503.Firmware

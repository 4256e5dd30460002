import R503.Segments
import R503.SerialLines

/-! `read_line` called again and again, one round of its loop after the other (sensor.rs). Wherever the serial reads
cut the stream and the deadlines end the calls, the lines are the segments of the stream. -/
namespace R503.Host

open Text

structure Chunk where
  bytes : Bytes
  fits : bytes.length ≤ 256

/-- What a round meets when it gets to the clock and the port; `Ok(0)` is the empty chunk. -/
inductive Tick where
  | expired
  | read (chunk : Chunk)
  | timedOut
  | failed

def Tick.bytes : Tick → Bytes
  | .read chunk => chunk.bytes
  | .expired | .timedOut | .failed => []

def decodeLine (segment : Bytes) : Bytes :=
  let line := fromUtf8Lossy segment
  if line.getLast? = some carriageReturn then line.dropLast else line

/-- One round: what `read_line` returns in it, if it returns, and `rx_buf`. -/
def readRound (rxBuf : Bytes) (tick : Tick) : Option Read × Bytes :=
  match find lineFeed rxBuf with
  | some nl => (some (.line (decodeLine (rxBuf.take nl))),rxBuf.drop (nl + 1))
  | none =>
    if rxBuf.length > maxLineLen then (some (.failed .lineTooLong),[])
    else match tick with
      | .expired => (some .deadline,rxBuf)
      | .read chunk => (none,rxBuf ++ chunk.bytes)
      | .timedOut => (none,rxBuf)
      | .failed => (some (.failed .io),rxBuf)

def Waits (rxBuf : Bytes) : Prop := lineFeed ∉ rxBuf ∧ rxBuf.length ≤ maxLineLen

instance (rxBuf : Bytes) : Decidable (Waits rxBuf) := inferInstanceAs (Decidable (_ ∧ _))

/-- The reader after some rounds: `results` are those of the calls so far, `received` is what the port has given. -/
structure Reader where
  rxBuf : Bytes
  results : List Read
  received : Bytes

def Reader.start : Reader := ⟨[],[],[]⟩

def Reader.round (s : Reader) (tick : Tick) : Reader where
  rxBuf := (readRound s.rxBuf tick).2
  results := s.results ++ (readRound s.rxBuf tick).1.toList
  received := if Waits s.rxBuf then s.received ++ tick.bytes else s.received

def Reader.run (s : Reader) (ticks : List Tick) : Reader := ticks.foldl Reader.round s

def Read.text : Read → Option Bytes
  | .line text => some text
  | _ => none

def Reader.lines (s : Reader) : List Bytes := s.results.filterMap Read.text

def isFeed (c : UInt8) : Bool := c == lineFeed

theorem isFeed_clean {s : Bytes} (clean : lineFeed ∉ s) : ∀ c ∈ s, isFeed c = false := by
  intro c member
  exact beq_false_of_ne fun same => clean (same ▸ member)

/-! ### One round -/

theorem readRound_line (segment rest : Bytes) (tick : Tick) (clean : lineFeed ∉ segment) :
    readRound (segment ++ lineFeed :: rest) tick = (some (.line (decodeLine segment)),rest) := by
  unfold readRound
  simp only [find_append lineFeed segment rest clean,List.take_left]
  rw [← List.drop_drop,List.drop_left,List.drop_one,List.tail_cons]

/-- A round returns the first line, or gives up on an overlong one, or waits. -/
theorem readRound_cases (rxBuf : Bytes) (tick : Tick) :
    (∃ segment rest, rxBuf = segment ++ lineFeed :: rest ∧ lineFeed ∉ segment ∧
      readRound rxBuf tick = (some (.line (decodeLine segment)),rest)) ∨
    (lineFeed ∉ rxBuf ∧ maxLineLen < rxBuf.length ∧ readRound rxBuf tick = (some (.failed .lineTooLong),[])) ∨
    (Waits rxBuf ∧ ∃ returned, readRound rxBuf tick = (returned,rxBuf ++ tick.bytes) ∧
      returned.bind Read.text = none) := by
  by_cases present : lineFeed ∈ rxBuf
  · obtain ⟨segment,rest,rfl,clean⟩ := List.eq_append_cons_of_mem present
    exact .inl ⟨segment,rest,rfl,clean,readRound_line segment rest tick clean⟩
  · refine .inr ?_
    unfold readRound
    rw [(find_none_iff lineFeed rxBuf).mpr present]
    by_cases long : rxBuf.length > maxLineLen
    · exact .inl ⟨present,long,if_pos long⟩
    · refine .inr ⟨⟨present,Nat.le_of_not_lt long⟩,?_⟩
      simp only [if_neg long]
      cases tick with
      | expired => exact ⟨_,by rw [Tick.bytes,List.append_nil],rfl⟩
      | read chunk => exact ⟨_,rfl,rfl⟩
      | timedOut => exact ⟨_,by rw [Tick.bytes,List.append_nil],rfl⟩
      | failed => exact ⟨_,by rw [Tick.bytes,List.append_nil],rfl⟩

theorem Tick.bytes_fit (tick : Tick) : tick.bytes.length ≤ 256 := by
  cases tick with
  | read chunk => exact chunk.fits
  | expired | timedOut | failed => exact Nat.zero_le _

theorem readRound_bounded (rxBuf : Bytes) (tick : Tick) (bounded : rxBuf.length ≤ maxLineLen + 256) :
    (readRound rxBuf tick).2.length ≤ maxLineLen + 256 := by
  rcases readRound_cases rxBuf tick with ⟨segment,rest,rfl,_,round⟩ | ⟨_,_,round⟩ | ⟨⟨_,short⟩,_,round,_⟩
  · rw [List.length_append,List.length_cons] at bounded
    simp only [round]
    omega
  · rw [round]
    exact Nat.zero_le _
  · rw [round,List.length_append]
    have small := tick.bytes_fit
    omega

def readCall (rxBuf : Bytes) : List Tick → Option (Read × Bytes)
  | [] => none
  | tick :: ticks =>
    match readRound rxBuf tick with
    | (some returned,rxBuf) => some (returned,rxBuf)
    | (none,rxBuf) => readCall rxBuf ticks

/-- A call that is given some chunks before its deadline is `readLine` on them. -/
theorem readCall_readLine (rxBuf : Bytes) (chunks : List Chunk) :
    readCall rxBuf (chunks.map .read ++ [.expired]) =
      some ((readLine rxBuf (chunks.map Chunk.bytes)).1,(readLine rxBuf (chunks.map Chunk.bytes)).2.1) := by
  induction chunks generalizing rxBuf with
  | nil =>
    unfold readLine
    simp only [List.map_nil,List.nil_append,readCall,readRound]
    cases find lineFeed rxBuf with
    | some nl => rfl
    | none =>
      by_cases long : rxBuf.length > maxLineLen
      · simp only [if_pos long]
      · simp only [if_neg long]
  | cons chunk chunks ih =>
    unfold readLine
    simp only [List.map_cons,List.cons_append,readCall,readRound]
    cases find lineFeed rxBuf with
    | some nl => rfl
    | none =>
      by_cases long : rxBuf.length > maxLineLen
      · simp only [if_pos long]
      · simp only [if_neg long]
        exact ih (rxBuf ++ chunk.bytes)

/-! ### All rounds -/

theorem Reader.run_append (s : Reader) (first second : List Tick) :
    s.run (first ++ second) = (s.run first).run second := List.foldl_append

theorem Reader.run_bounded (s : Reader) (ticks : List Tick) (bounded : s.rxBuf.length ≤ maxLineLen + 256) :
    (s.run ticks).rxBuf.length ≤ maxLineLen + 256 := by
  induction ticks generalizing s with
  | nil => exact bounded
  | cons tick ticks ih => exact ih (s.round tick) (readRound_bounded s.rxBuf tick bounded)

/-- The lines returned and those still in `rx_buf` are the ended segments. The open segment is in `rx_buf` as
well, unless some of it was given up because it is overlong. -/
structure Reader.Tracks (s : Reader) : Prop where
  lines : s.lines ++ (Segments.ended isFeed s.rxBuf).map decodeLine =
    (Segments.ended isFeed s.received).map decodeLine
  within : Segments.pending isFeed s.rxBuf <:+ Segments.pending isFeed s.received
  whole : (Segments.pending isFeed s.received).length ≤ maxLineLen →
    Segments.pending isFeed s.rxBuf = Segments.pending isFeed s.received

theorem Reader.Tracks.start : Reader.start.Tracks := ⟨rfl,List.suffix_rfl,fun _ => rfl⟩

theorem Reader.lines_round (s : Reader) (tick : Tick) :
    (s.round tick).lines = s.lines ++ ((readRound s.rxBuf tick).1.bind Read.text).toList := by
  rw [lines,round,List.filterMap_append,lines]
  congr 1
  cases (readRound s.rxBuf tick).1 with
  | none => rfl
  | some returned => cases returned <;> rfl

/-- A round with a whole line in `rx_buf` returns that line. -/
theorem Reader.round_line (s : Reader) (tick : Tick) (segment rest : Bytes) (clean : lineFeed ∉ segment)
    (holds : s.rxBuf = segment ++ lineFeed :: rest) : (s.round tick).rxBuf = rest ∧
      (s.round tick).received = s.received ∧ (s.round tick).lines = s.lines ++ [decodeLine segment] := by
  have returns : readRound s.rxBuf tick = (some (.line (decodeLine segment)),rest) :=
    holds ▸ readRound_line segment rest tick clean
  have busy : ¬ Waits s.rxBuf := fun waits => waits.1 (holds ▸ by simp)
  refine ⟨congrArg Prod.snd returns,if_neg busy,?_⟩
  rw [lines_round,returns]
  rfl

/-- More input goes on from what is open, in the stream and in `rx_buf`. -/
theorem Reader.Tracks.receive {s t : Reader} (tracks : s.Tracks) (bytes : Bytes) (buffer : t.rxBuf = s.rxBuf ++ bytes)
    (received : t.received = s.received ++ bytes) (same : t.lines = s.lines)
    (short : ∀ segment ∈ Segments.ended isFeed t.received, segment.length ≤ maxLineLen) : t.Tracks := by
  obtain ⟨endedAll,openAll⟩ := Segments.append (p := isFeed) s.received bytes
  obtain ⟨endedHere,openHere⟩ := Segments.append (p := isFeed) s.rxBuf bytes
  rw [← received] at endedAll openAll
  rw [← buffer] at endedHere openHere
  by_cases fits : (Segments.pending isFeed s.received).length ≤ maxLineLen
  · rw [tracks.whole fits,← openAll] at openHere
    refine ⟨?_,openHere ▸ List.suffix_rfl,fun _ => openHere⟩
    rw [same,endedHere,endedAll,tracks.whole fits,List.map_append,List.map_append,← List.append_assoc,tracks.lines]
  · -- an overlong segment does not end here
    have still : lineFeed ∉ bytes := by
      intro present
      obtain ⟨front,rest,rfl,clean⟩ := List.eq_append_cons_of_mem present
      have before : ∀ c ∈ Segments.pending isFeed s.received ++ front, isFeed c = false :=
        List.forall_mem_append.mpr ⟨Segments.pending_open _,isFeed_clean clean⟩
      rw [← List.append_assoc,(Segments.ended_cons before lineFeed rfl rest).1] at endedAll
      have length := short _ (endedAll ▸ List.mem_append_right _ List.mem_cons_self)
      rw [List.length_append] at length
      omega
    have open_ : ∀ m, (∀ c ∈ m, isFeed c = false) → Segments.ended isFeed (m ++ bytes) = [] ∧
        Segments.pending isFeed (m ++ bytes) = m ++ bytes := fun m clean =>
      Segments.clean_pending (List.forall_mem_append.mpr ⟨clean,isFeed_clean still⟩)
    obtain ⟨noneAll,restAll⟩ := open_ _ (Segments.pending_open s.received)
    obtain ⟨noneHere,restHere⟩ := open_ _ (Segments.pending_open s.rxBuf)
    rw [noneAll,List.append_nil] at endedAll
    rw [noneHere,List.append_nil] at endedHere
    rw [restAll] at openAll
    rw [restHere] at openHere
    obtain ⟨lost,cut⟩ := tracks.within
    refine ⟨by rw [same,endedHere,endedAll,tracks.lines],⟨lost,?_⟩,fun small => ?_⟩
    · rw [openHere,openAll,← cut,List.append_assoc]
    · rw [openAll,List.length_append] at small
      omega

theorem Reader.Tracks.round {s : Reader} (tracks : s.Tracks) (tick : Tick)
    (short : ∀ segment ∈ Segments.ended isFeed (s.round tick).received, segment.length ≤ maxLineLen) :
    (s.round tick).Tracks := by
  rcases readRound_cases s.rxBuf tick with
    ⟨segment,rest,holds,clean,_⟩ | ⟨absent,long,gives⟩ | ⟨waits,_,gives,noLine⟩
  · obtain ⟨left,same,returned⟩ := s.round_line tick segment rest clean holds
    obtain ⟨first,others⟩ := Segments.ended_cons (isFeed_clean clean) lineFeed rfl rest
    rw [← holds] at first others
    have before := tracks.lines
    rw [first,List.map_cons] at before
    refine ⟨?_,?_,fun small => ?_⟩
    · rw [returned,left,same,List.append_assoc]
      exact before
    · rw [left,same,← others]
      exact tracks.within
    · rw [same] at small ⊢
      rw [left,← others]
      exact tracks.whole small
  · -- the whole buffer is open, and is given up
    obtain ⟨none_,all⟩ := Segments.clean_pending (isFeed_clean absent)
    have same : (s.round tick).received = s.received := if_neg fun waits => absurd waits.2 (Nat.not_le_of_lt long)
    have left : (s.round tick).rxBuf = [] := congrArg Prod.snd gives
    have before := tracks.lines
    rw [none_] at before
    refine ⟨?_,?_,fun small => ?_⟩
    · rw [s.lines_round tick,gives,left,same]
      simpa [Read.text] using before
    · rw [left]
      exact List.nil_suffix
    · have length := tracks.within.length_le
      rw [all] at length
      rw [same] at small
      omega
  · refine tracks.receive tick.bytes (congrArg Prod.snd gives) (if_pos waits) ?_ short
    rw [s.lines_round tick,gives,noLine]
    exact List.append_nil _

theorem Reader.received_round (s : Reader) (tick : Tick) : ∃ more, (s.round tick).received = s.received ++ more := by
  rw [round]
  split
  · exact ⟨_,rfl⟩
  · exact ⟨[],(List.append_nil _).symm⟩

theorem Reader.Tracks.run (ticks : List Tick)
    (short : ∀ segment ∈ Segments.ended isFeed (Reader.start.run ticks).received, segment.length ≤ maxLineLen) :
    (Reader.start.run ticks).Tracks := by
  induction ticks using List.reverseRecOn with
  | nil => exact .start
  | append_singleton ticks tick ih =>
    rw [Reader.run_append] at short ⊢
    refine (ih fun segment member => short segment ?_).round tick short
    obtain ⟨more,grows⟩ := (Reader.start.run ticks).received_round tick
    change segment ∈ Segments.ended isFeed ((Reader.start.run ticks).round tick).received
    rw [grows,(Segments.append _ more).1]
    exact List.mem_append_left _ member

/-- As many rounds as there are whole lines in `rx_buf` return them all, and read nothing. -/
theorem Reader.drain (s : Reader) (more : List Tick) (enough : more.length = (Segments.ended isFeed s.rxBuf).length) :
    (s.run more).received = s.received ∧
      (s.run more).lines = s.lines ++ (Segments.ended isFeed s.rxBuf).map decodeLine := by
  induction more generalizing s with
  | nil =>
    rw [List.eq_nil_of_length_eq_zero enough.symm,List.map_nil,List.append_nil]
    exact ⟨rfl,rfl⟩
  | cons tick more ih =>
    have present : lineFeed ∈ s.rxBuf := by
      by_contra absent
      rw [(Segments.clean_pending (isFeed_clean absent)).1] at enough
      cases enough
    obtain ⟨segment,rest,holds,clean⟩ := List.eq_append_cons_of_mem present
    have first := (Segments.ended_cons (isFeed_clean clean) lineFeed rfl rest).1
    rw [← holds] at first
    obtain ⟨left,same,returned⟩ := s.round_line tick segment rest clean holds
    rw [first,List.length_cons,List.length_cons,← left] at enough
    obtain ⟨unread,all⟩ := ih (s.round tick) (Nat.succ.inj enough)
    refine ⟨unread.trans same,?_⟩
    rw [first,List.map_cons]
    rw [left,returned,List.append_assoc] at all
    exact all

/-- Whatever reads, timeouts and deadlines the calls meet: the lines returned and those still to be returned from
`rx_buf` are the segments of the received stream, and `rx_buf` stays small whether these are short or not. -/
theorem lines_independent_of_chunks (ticks : List Tick) :
    (Reader.start.run ticks).rxBuf.length ≤ maxLineLen + 256 ∧
      ((∀ segment ∈ Segments.ended isFeed (Reader.start.run ticks).received, segment.length ≤ maxLineLen) →
        (Reader.start.run ticks).lines <+:
          (Segments.ended isFeed (Reader.start.run ticks).received).map decodeLine ∧
        ∀ more, more.length = (Segments.ended isFeed (Reader.start.run ticks).rxBuf).length →
          (Reader.start.run (ticks ++ more)).received = (Reader.start.run ticks).received ∧
          (Reader.start.run (ticks ++ more)).lines =
            (Segments.ended isFeed (Reader.start.run ticks).received).map decodeLine) := by
  refine ⟨Reader.start.run_bounded ticks (Nat.zero_le _),fun short => ?_⟩
  have tracks := Reader.Tracks.run ticks short
  refine ⟨⟨_,tracks.lines⟩,fun more enough => ?_⟩
  rw [Reader.run_append,← tracks.lines]
  exact (Reader.start.run ticks).drain more enough

/-- A character cut in two, a deadline in the middle of it, and two lines in one read. -/
def cutTicks : List Tick :=
  [.read ⟨ascii "caf" ++ [0xC3],by decide⟩,.expired,.timedOut,
    .read ⟨[0xA9] ++ ascii "\r\nOK\nPA",by decide⟩,.read ⟨[],by decide⟩]

theorem lines_independent_of_chunks_cut : (Reader.start.run cutTicks).rxBuf.length ≤ maxLineLen + 256 ∧
    (Reader.start.run (cutTicks ++ [.failed])).lines = [ascii "caf" ++ [0xC3,0xA9],ascii "OK"] := by
  obtain ⟨bounded,faithful⟩ := lines_independent_of_chunks cutTicks
  obtain ⟨_,settled⟩ := faithful (by decide +kernel)
  refine ⟨bounded,(settled [.failed] (by decide +kernel)).2.trans ?_⟩
  decide +kernel

end R503.Host

import R503.LineReader
import R503.PairingLink
import R503.Transition

/-! The handshake that opens the port (`R503::sync` of sensor.rs): opening may reset the Nano, whose boot output is
drained, and then `ping` is sent until a pong is heard. -/
namespace R503.Sync

open Text Host Firmware Segments

/-! ### The two ends and the bytes between them -/

inductive Phase where
  | draining
  /-- Between two pings. -/
  | between
  | listening
  | synced
  | failed
  deriving DecidableEq

structure Wire where
  ee : Eeprom
  /-- The bootloader or `setup` is running. -/
  booting : Bool
  /-- `inbuf` of the sketch, and what is sent to it and not yet read. -/
  inbuf : Bytes
  input : Bytes
  /-- What is printed and under way, what waits in the kernel's input queue, and `rx_buf`. -/
  transit : Bytes
  queue : Bytes
  rxBuf : Bytes
  pings : Nat
  phase : Phase

inductive Action where
  /-- The bootloader takes what has come in so far. -/
  | lose (n : Nat)
  | boot (lib : Library)
  /-- `loop` reads one character. -/
  | take (lib : Library)
  | arrive (n : Nat)
  /-- A read of the first phase, whose bytes are dropped. -/
  | drain (n : Nat)
  | ping
  /-- A read inside `read_line`. -/
  | read (n : Nat)
  /-- `read_line` gives a line; `cleared` is whether the queue can be cleared after a pong. -/
  | line (cleared : Bool)
  /-- `read_line` gives none before the deadline. -/
  | expire
  | fail

namespace Wire

/-- The port is open and every buffer empty; `booting` is whether that has reset the Nano, which otherwise is idle. -/
def opened (e : Eeprom) (booting : Bool) : Wire := ⟨e,booting,[],[],[],[],[],0,.draining⟩

def take (s : Wire) (lib : Library) : Option Wire :=
  match s.input with
  | [] => none
  | c :: input =>
    match loopChar s.inbuf c with
    | (inbuf,none) => some { s with inbuf, input }
    | (inbuf,some .overflow) =>
      some { s with inbuf, input, transit := s.transit ++ serialOut [.serial (ascii "ERR bad_args overflow")] }
    | (inbuf,some (.line text)) =>
      let effects := processLine s.ee lib text
      some { s with ee := effects.foldl Effect.apply s.ee, inbuf, input, transit := s.transit ++ serialOut effects }

def step (s : Wire) : Action → Option Wire
  | .lose n => if s.booting then some { s with input := s.input.drop n } else none
  | .boot lib =>
    if s.booting then some { s with booting := false, transit := s.transit ++ serialOut (setup s.ee lib) } else none
  | .take lib => if s.booting then none else s.take lib
  | .arrive n => some { s with transit := s.transit.drop n, queue := s.queue ++ s.transit.take n }
  | .drain n => if s.phase = .draining ∧ n ≤ 256 then some { s with queue := s.queue.drop n } else none
  | .ping =>
    if s.phase = .draining ∨ s.phase = .between then
      some { s with
        rxBuf := [], queue := [], input := s.input ++ (ascii "ping" ++ [lineFeed]), pings := s.pings + 1
        phase := .listening }
    else none
  | .read n =>
    if s.phase = .listening ∧ Waits s.rxBuf ∧ n ≤ 256 then
      some { s with queue := s.queue.drop n, rxBuf := s.rxBuf ++ s.queue.take n }
    else none
  | .line cleared =>
    if s.phase = .listening then
      match find lineFeed s.rxBuf with
      | none => none
      | some nl =>
        if decodeLine (s.rxBuf.take nl) = ascii "OK pong" then
          some { s with rxBuf := [], queue := if cleared then [] else s.queue, phase := .synced }
        else some { s with rxBuf := s.rxBuf.drop (nl + 1) }
    else none
  | .expire => if s.phase = .listening ∧ lineFeed ∉ s.rxBuf then some { s with phase := .between } else none
  | .fail => if s.phase = .synced then none else some { s with phase := .failed }

end Wire

/-! ### Lines that are no pong -/

def pongLine : Bytes := ascii "OK pong" ++ [carriageReturn]

/-- No end of the line is read as a pong. -/
def Mute (m : Bytes) : Prop := lineFeed ∉ m ∧ ∀ tail ∈ m.tails, decodeLine tail ≠ ascii "OK pong"

instance (m : Bytes) : Decidable (Mute m) := inferInstanceAs (Decidable (_ ∧ _))

def Scrap (m : Bytes) : Prop := m ∈ [ascii "ing",ascii "ng",ascii "g",[]]

/-- What the banner and the numbers of `info` are made of. -/
def Plain (c : UInt8) : Prop := c ≠ lineFeed ∧ c < 128 ∧ c ≠ 103

instance (c : UInt8) : Decidable (Plain c) := inferInstanceAs (Decidable (_ ∧ _))

theorem Mute.shorter (x : UInt8) (m : Bytes) (mute : Mute (x :: m)) : Mute m :=
  ⟨fun member => mute.1 (List.mem_cons_of_mem x member),fun tail member => mute.2 tail (by
    rw [List.tails_cons]
    exact List.mem_cons_of_mem _ member)⟩

theorem decodeLine_ascii (s : Bytes) (plain : ∀ c ∈ s, c < 128) :
    decodeLine s = if s.getLast? = some carriageReturn then s.dropLast else s := by
  rw [decodeLine,fromUtf8Lossy_ascii s plain]

theorem mute_of_plain {m : Bytes} (plain : ∀ c ∈ m, Plain c) : Mute m := by
  refine ⟨fun member => (plain _ member).1 rfl,fun tail member same => ?_⟩
  have inside := ((List.mem_tails _ _).mp member).subset
  have last : (103 : UInt8) ∈ decodeLine tail := by rw [same]; decide
  rw [decodeLine_ascii tail fun c here => (plain c (inside here)).2.1] at last
  have here : (103 : UInt8) ∈ tail := by
    split at last
    · exact List.dropLast_subset tail last
    · exact last
  exact (plain _ (inside here)).2.2 rfl

/-- A pong that is cut off in front is read as something else. -/
theorem mute_cut (x : UInt8) (m : Bytes) (cut : pongLine = x :: m) : Mute m := by
  obtain rfl : m = pongLine.tail := by rw [cut,List.tail_cons]
  decide

/-! ### What the Nano prints -/

theorem serialOut_join (effects : List Effect) :
    serialOut effects = join lineFeed ((effects.filterMap Effect.wire).map (· ++ [carriageReturn])) := by
  simp [serialOut,join,List.flatMap_map]

theorem serialOut_line (line : Bytes) : serialOut [.serial line] = join lineFeed [line ++ [carriageReturn]] :=
  serialOut_join _

/-- The rest of a ping gives one line, and changes nothing. -/
theorem scrap_reply (e : Eeprom) (lib : Library) {m : Bytes} (scrap : Scrap m) (some : m ≠ []) :
    ∃ reply, Mute reply ∧ serialOut (processLine e lib m) = join lineFeed [reply] ∧
      (processLine e lib m).foldl Effect.apply e = e := by
  have named : m = ascii "ing" ∨ m = ascii "ng" ∨ m = ascii "g" := by
    simpa [Scrap,some] using scrap
  have other : ¬ equals m "ping" ∧ ¬ equals m "status" ∧ (ascii "C ").isPrefixOf m = false ∧
      Mute (ascii "ERR unknown_command " ++ m ++ [carriageReturn]) ∧ lineFeed ∉ m ∧ m.take 40 = m := by
    rcases named with rfl | rfl | rfl <;> decide
  obtain ⟨notPing,notStatus,notFrame,mute,clean,short⟩ := other
  have unknown : dispatch e lib m = println [ascii "ERR unknown_command ",m] := by
    rcases named with rfl | rfl | rfl <;> rfl
  rw [processLine,if_neg notPing,if_neg notStatus]
  by_cases paired : eeIsPaired e = true
  · rw [if_neg (not_not.mpr paired),if_pos (by simp [notFrame])]
    exact ⟨ascii "ERR mac_required" ++ [carriageReturn],by decide,serialOut_line _,rfl⟩
  · have printed := plainOutput_println [ascii "ERR unknown_command ",m] (by
      simp only [List.forall_mem_cons,clean,not_false_eq_true,List.not_mem_nil,false_implies,implies_true,and_true]
      decide)
    rw [if_pos paired,plainDispatch,unknown,printed]
    exact ⟨_,by simpa using mute,serialOut_line _,rfl⟩

theorem plain_number (n : Nat) : ∀ c ∈ number n, Plain c := by
  intro c member
  have digit := (Decimal.isDigit_iff c).mp (Decimal.render_digits n c member)
  have small : c < 128 := UInt8.lt_iff_toNat_lt.mpr (digit.2.trans_lt (by decide))
  refine ⟨?_,small,?_⟩
  · rintro rfl
    exact absurd digit.1 (by decide)
  · rintro rfl
    exact absurd digit.2 (by decide)

theorem plain_hexNumber (n : Nat) : ∀ c ∈ hexNumber n, Plain c := by
  unfold hexNumber
  split
  · decide
  · intro c member
    obtain ⟨d,digit,rfl⟩ := List.mem_map.mp (List.mem_reverse.mp member)
    have check : ∀ d : Fin 16, Plain (hexDigit d) := by decide
    exact check ⟨d,Nat.digits_lt_base (by decide) digit⟩

theorem plain_flatten {pieces : List Bytes} (each : ∀ piece ∈ pieces, ∀ c ∈ piece, Plain c) :
    ∀ c ∈ pieces.flatten ++ [carriageReturn], Plain c := by
  intro c member
  rcases List.mem_append.mp member with inside | last
  · obtain ⟨piece,place,here⟩ := List.mem_flatten.mp inside
    exact each piece place c here
  · rw [List.mem_singleton.mp last]
    decide

/-- What `setup` prints is no pong. -/
theorem boot_mute (e : Eeprom) (lib : Library) :
    ∃ lines, (∀ m ∈ lines, Mute m) ∧ serialOut (setup e lib) = join lineFeed lines := by
  have feedless {pieces : List Bytes} (each : ∀ piece ∈ pieces, ∀ c ∈ piece, Plain c) :
      ∀ piece ∈ pieces, lineFeed ∉ piece := fun piece place member => (each piece place _ member).1 rfl
  have banner : ∀ piece ∈ [ascii "R503FP READY fw=1.1 paired=",
      if eeIsPaired e then ascii "true" else ascii "false"], ∀ c ∈ piece, Plain c := by
    simp only [List.forall_mem_cons,List.not_mem_nil,false_implies,implies_true,and_true]
    constructor
    · decide
    · split <;> decide
  have info : ∃ pieces : List Bytes, (∀ piece ∈ pieces, ∀ c ∈ piece, Plain c) ∧ emitInfo lib = println pieces := by
    unfold emitInfo
    split
    · exact ⟨[ascii "ERR sensor_unreachable"],by decide,rfl⟩
    · refine ⟨_,?_,rfl⟩
      simp only [List.forall_mem_cons,List.not_mem_nil,false_implies,implies_true,and_true]
      refine ⟨?_,plain_number _,?_,plain_number _,?_,plain_hexNumber _,?_,plain_number _,?_,plain_hexNumber _⟩
      all_goals decide
  obtain ⟨pieces,plain,same⟩ := info
  have printed : setup e lib = [.serial ([ascii "R503FP READY fw=1.1 paired=",
      if eeIsPaired e then ascii "true" else ascii "false"].flatten),.serial pieces.flatten] := by
    rw [setup,plainOutput,emit_serial_println _ _ _ _ (feedless banner),same]
    exact congrArg (List.cons _) (plainOutput_println pieces (feedless plain))
  refine ⟨_,?_,serialOut_join _⟩
  rw [printed]
  simp only [List.filterMap_cons,Effect.wire,List.filterMap_nil,List.map_cons,List.map_nil,List.forall_mem_cons,
    List.not_mem_nil,false_implies,implies_true,and_true]
  exact ⟨mute_of_plain (plain_flatten banner),mute_of_plain (plain_flatten plain)⟩

/-! ### One character of `loop` -/

/-- The word of a ping and its rests are short and hold no end of a line. -/
theorem word_plain {m : Bytes} (known : m = ascii "ping" ∨ Scrap m) :
    m.length ≤ 4 ∧ ∀ c ∈ m, c ≠ lineFeed ∧ c ≠ carriageReturn := by
  have all : ∀ m ∈ [ascii "ping",ascii "ing",ascii "ng",ascii "g",[]],
      m.length ≤ 4 ∧ ∀ c ∈ m, c ≠ lineFeed ∧ c ≠ carriageReturn := by decide
  exact all m (List.mem_cons.mpr known)

/-- A character that ends no line is one of the line's. -/
theorem gathered {inbuf rest tail m : Bytes} {c : UInt8} (clean : lineFeed ∉ inbuf) (inside : c ≠ lineFeed)
    (known : m = ascii "ping" ∨ Scrap m) (feed : inbuf ++ c :: rest = m ++ lineFeed :: tail) :
    loopChar inbuf c = (inbuf ++ [c],none) := by
  obtain ⟨short,plain⟩ := word_plain known
  have begins : ∃ more, m = inbuf ++ c :: more := by
    rcases List.append_eq_append_iff.mp feed with ⟨more,same,after⟩ | ⟨more,same,after⟩
    · cases more with
      | nil => exact absurd (List.cons.inj after).1 inside
      | cons x more =>
        obtain ⟨rfl,_⟩ := List.cons.inj after
        exact ⟨more,same⟩
    · cases more with
      | nil => exact absurd (List.cons.inj after).1.symm inside
      | cons x more =>
        obtain ⟨rfl,_⟩ := List.cons.inj after
        exact absurd (by rw [same]; simp) clean
  obtain ⟨more,rfl⟩ := begins
  have notReturn := (plain c (by simp)).2
  have room : ¬ (inbuf ++ [c]).length ≥ 128 := by
    simp only [List.length_append,List.length_cons,List.length_nil] at short ⊢
    omega
  simp only [loopChar,inside,notReturn,or_self,if_false,room]

/-- What a character makes of the pings on their way: it goes into the line, or it ends a rest of a ping, or it
ends a ping, which is answered. -/
theorem take_cases {s t : Wire} {lib : Library} {k : Nat} (scraps : List Bytes) (clean : lineFeed ∉ s.inbuf)
    (known : ∀ m ∈ scraps, Scrap m)
    (feed : s.inbuf ++ s.input = join lineFeed (scraps ++ List.replicate k (ascii "ping")))
    (moved : s.take lib = some t) :
    ∃ inbuf input out, t = { s with inbuf, input, transit := s.transit ++ out } ∧ lineFeed ∉ inbuf ∧
      ((inbuf ++ input = s.inbuf ++ s.input ∧ out = []) ∨
        (∃ m later reply, scraps = m :: later ∧
          inbuf ++ input = join lineFeed (later ++ List.replicate k (ascii "ping")) ∧ out = join lineFeed reply ∧
          ∀ m ∈ reply, Mute m) ∨
        (∃ j, scraps = [] ∧ k = j + 1 ∧ inbuf ++ input = join lineFeed (List.replicate j (ascii "ping")) ∧
          out = join lineFeed [pongLine])) := by
  obtain ⟨ee,booting,inbuf,input,transit,queue,rxBuf,pings,phase⟩ := s
  dsimp only at clean feed ⊢
  have each : ∀ m ∈ scraps ++ List.replicate k (ascii "ping"), m = ascii "ping" ∨ Scrap m := by
    intro m member
    rcases List.mem_append.mp member with scrap | word
    · exact .inr (known m scrap)
    · exact .inl (List.eq_of_mem_replicate word)
  cases input with
  | nil => cases moved
  | cons c rest =>
    cases segments : scraps ++ List.replicate k (ascii "ping") with
    | nil =>
      rw [segments] at feed
      simp at feed
    | cons m later =>
      have word : m = ascii "ping" ∨ Scrap m := each m (by rw [segments]; exact List.mem_cons_self)
      rw [segments,join_cons] at feed
      by_cases ends : c = lineFeed
      · subst ends
        obtain ⟨rfl,rfl⟩ := first_cut clean (fun member => ((word_plain word).2 _ member).1 rfl) feed
        have ended : loopChar inbuf lineFeed = if inbuf.length > 0 then ([],some (.line inbuf)) else (inbuf,none) :=
          if_pos (.inl rfl)
        cases scraps with
        | nil =>
          cases k with
          | zero => cases segments
          | succ j =>
            obtain ⟨rfl,rfl⟩ := List.cons.inj segments
            have went : loopChar (ascii "ping") lineFeed = ([],some (.line (ascii "ping"))) := ended
            simp only [Wire.take,went,Option.some.injEq] at moved
            subst moved
            exact ⟨[],_,join lineFeed [pongLine],rfl,List.not_mem_nil,.inr (.inr ⟨j,rfl,rfl,rfl,rfl⟩)⟩
        | cons scrap scraps =>
          obtain ⟨rfl,rfl⟩ := List.cons.inj segments
          by_cases some : scrap = []
          · subst some
            have went : loopChar [] lineFeed = ([],none) := ended
            simp only [Wire.take,went,Option.some.injEq] at moved
            subst moved
            exact ⟨[],join lineFeed (scraps ++ List.replicate k (ascii "ping")),[],by simp,List.not_mem_nil,
              .inr (.inl ⟨_,scraps,[],rfl,rfl,rfl,fun _ none => by cases none⟩)⟩
          · obtain ⟨reply,mute,printed,still⟩ := scrap_reply ee lib (known scrap List.mem_cons_self) some
            have went : loopChar scrap lineFeed = ([],Option.some (.line scrap)) :=
              ended.trans (if_pos (List.length_pos_iff.mpr some))
            simp only [Wire.take,went,Option.some.injEq,still,printed] at moved
            subst moved
            exact ⟨[],_,join lineFeed [reply],rfl,List.not_mem_nil,.inr (.inl ⟨_,scraps,[reply],rfl,rfl,rfl,
              fun m member => List.mem_singleton.mp member ▸ mute⟩)⟩
      · -- the character goes into the line
        have went : loopChar inbuf c = (inbuf ++ [c],none) := gathered clean ends word feed
        simp only [Wire.take,went,Option.some.injEq] at moved
        subst moved
        refine ⟨inbuf ++ [c],rest,[],by rw [List.append_nil],?_,.inl ⟨by simp,rfl⟩⟩
        exact fun member => (List.mem_append.mp member).elim clean fun last => ends (List.mem_singleton.mp last).symm

/-! ### The invariant -/

/-- Before a pong is heard: pings on their way, answers on their way back, and in front of both only lines that
are neither; an answer there is none before the last rest of a ping is gone. -/
structure Waiting (e : Eeprom) (s : Wire) : Prop where
  unheard : s.phase ≠ .synced
  unread : s.phase = .draining → s.rxBuf = []
  ee : s.ee = e
  clean : lineFeed ∉ s.inbuf
  silent : s.booting = true → s.inbuf = [] ∧ s.rxBuf ++ s.queue ++ s.transit = []
  bytes : ∃ scraps k mutes i,
    s.inbuf ++ s.input = join lineFeed (scraps ++ List.replicate k (ascii "ping")) ∧ (∀ m ∈ scraps, Scrap m) ∧
    s.rxBuf ++ s.queue ++ s.transit = join lineFeed (mutes ++ List.replicate i pongLine) ∧ (∀ m ∈ mutes, Mute m) ∧
    (scraps = [] ∨ i = 0) ∧ i + k ≤ s.pings

/-- Once it is heard: only whole pings and the ends of their answers, one fewer than were sent. -/
structure Settled (e : Eeprom) (s : Wire) : Prop where
  heard : s.phase = .synced
  ee : s.ee = e
  clean : lineFeed ∉ s.inbuf
  running : s.booting = false
  read : s.rxBuf = []
  bytes : ∃ k m, s.inbuf ++ s.input = join lineFeed (List.replicate k (ascii "ping")) ∧
    s.queue ++ s.transit <:+ join lineFeed (List.replicate m pongLine) ∧ m + k < s.pings

theorem drop_pings (scraps : List Bytes) (known : ∀ m ∈ scraps, Scrap m) (k n : Nat) :
    ∃ scraps' k', k' ≤ k ∧ (∀ m ∈ scraps', Scrap m) ∧
      (join lineFeed (scraps ++ List.replicate k (ascii "ping"))).drop n =
        join lineFeed (scraps' ++ List.replicate k' (ascii "ping")) := by
  refine drop_join (fun x m scrap => ?_) (fun x m same => ?_) scraps known k n
  · have all : ∀ s ∈ [ascii "ing",ascii "ng",ascii "g",[]], s ≠ [] → s.tail ∈ [ascii "ing",ascii "ng",ascii "g",[]] := by
      decide
    exact all (x :: m) scrap (List.cons_ne_nil x m)
  · obtain rfl : m = (ascii "ping").tail := by rw [same,List.tail_cons]
    exact List.mem_cons_self

theorem drop_pongs (mutes : List Bytes) (mute : ∀ m ∈ mutes, Mute m) (i n : Nat) :
    ∃ mutes' i', i' ≤ i ∧ (∀ m ∈ mutes', Mute m) ∧
      (join lineFeed (mutes ++ List.replicate i pongLine)).drop n =
        join lineFeed (mutes' ++ List.replicate i' pongLine) :=
  drop_join Mute.shorter mute_cut mutes mute i n

variable {e : Eeprom} {s t : Wire}

/-- Bytes that the host drops are the first of those on their way to it. -/
theorem Waiting.dropped (waiting : Waiting e s) (n : Nat) (rxBuf queue : Bytes) (phase : Phase)
    (unheard : phase ≠ .synced) (unread : phase = .draining → rxBuf = [])
    (cut : rxBuf ++ queue ++ s.transit = (s.rxBuf ++ s.queue ++ s.transit).drop n) :
    Waiting e { s with rxBuf, queue, phase } := by
  obtain ⟨_,_,ee,clean,silent,scraps,k,mutes,i,feed,scrap,out,mute,order,bound⟩ := waiting
  obtain ⟨mutes',i',fewer,mute',left⟩ := drop_pongs mutes mute i n
  refine ⟨unheard,unread,ee,clean,fun booting => ⟨(silent booting).1,?_⟩,
    scraps,k,mutes',i',feed,scrap,?_,mute',order.imp_right fun none => by omega,?_⟩
  · change rxBuf ++ queue ++ s.transit = []
    rw [cut,(silent booting).2,List.drop_nil]
  · change rxBuf ++ queue ++ s.transit = _
    rw [cut,out,left]
  · change i' + k ≤ s.pings
    omega

theorem Waiting.lose (waiting : Waiting e s) (n : Nat) (booting : s.booting = true) :
    Waiting e { s with input := s.input.drop n } := by
  obtain ⟨unheard,unread,ee,clean,silent,scraps,k,mutes,i,feed,scrap,out,mute,order,bound⟩ := waiting
  obtain ⟨empty,nothing⟩ := silent booting
  obtain ⟨scraps',k',fewer,scrap',left⟩ := drop_pings scraps scrap k n
  rw [empty,List.nil_append] at feed
  -- nothing was printed, so there is no answer either
  refine ⟨unheard,unread,ee,clean,silent,scraps',k',[],0,?_,scrap',nothing,(fun _ none => by cases none),.inr rfl,?_⟩
  · change s.inbuf ++ s.input.drop n = _
    rw [empty,feed,left,List.nil_append]
  · change 0 + k' ≤ s.pings
    omega

theorem Waiting.boot (waiting : Waiting e s) (lib : Library) (booting : s.booting = true) :
    Waiting e { s with booting := false, transit := s.transit ++ serialOut (setup s.ee lib) } := by
  obtain ⟨unheard,unread,ee,clean,silent,scraps,k,mutes,i,feed,scrap,out,mute,order,bound⟩ := waiting
  obtain ⟨lines,quiet,printed⟩ := boot_mute s.ee lib
  refine ⟨unheard,unread,ee,clean,(fun never => by cases never),scraps,k,lines,0,feed,scrap,?_,quiet,.inr rfl,?_⟩
  · change s.rxBuf ++ s.queue ++ (s.transit ++ serialOut (setup s.ee lib)) = _
    rw [← List.append_assoc,(silent booting).2,printed,List.nil_append,List.replicate_zero,List.append_nil]
  · change 0 + k ≤ s.pings
    omega

theorem Waiting.take (waiting : Waiting e s) {lib : Library} (running : s.booting = false)
    (moved : s.take lib = some t) : Waiting e t := by
  obtain ⟨unheard,unread,ee,clean,silent,scraps,k,mutes,i,feed,scrap,out,mute,order,bound⟩ := waiting
  obtain ⟨inbuf,input,more,rfl,clean',cases⟩ := take_cases scraps clean scrap feed moved
  have grown : s.rxBuf ++ s.queue ++ (s.transit ++ more) =
      join lineFeed (mutes ++ List.replicate i pongLine) ++ more := by rw [← List.append_assoc,out]
  have booted : s.booting = true → inbuf = [] ∧ s.rxBuf ++ s.queue ++ (s.transit ++ more) = [] := by
    rw [running]
    exact fun never => by cases never
  rcases cases with ⟨same,rfl⟩ | ⟨m,later,reply,rfl,left,rfl,quiet⟩ | ⟨j,rfl,rfl,left,rfl⟩
  · refine ⟨unheard,unread,ee,clean',booted,scraps,k,mutes,i,same.trans feed,scrap,?_,mute,order,bound⟩
    exact grown.trans (List.append_nil _)
  · -- the last answers are not there yet, so the reply follows the mute lines
    have none : i = 0 := order.resolve_left (List.cons_ne_nil m later)
    refine ⟨unheard,unread,ee,clean',booted,later,k,mutes ++ reply,0,left,(List.forall_mem_cons.mp scrap).2,?_,
      List.forall_mem_append.mpr ⟨mute,quiet⟩,.inr rfl,?_⟩
    · refine grown.trans ?_
      rw [none,List.replicate_zero,List.append_nil,List.append_nil,join_append]
    · change 0 + k ≤ s.pings
      omega
  · refine ⟨unheard,unread,ee,clean',booted,[],j,mutes,i + 1,left,scrap,?_,mute,.inl rfl,?_⟩
    · refine grown.trans ?_
      rw [← join_append,List.append_assoc,List.replicate_succ']
    · change i + 1 + j ≤ s.pings
      omega

/-- Bytes may move on along their way. -/
theorem Waiting.moved (waiting : Waiting e s) {rxBuf queue transit : Bytes}
    (unread : s.phase = .draining → rxBuf = [])
    (same : rxBuf ++ queue ++ transit = s.rxBuf ++ s.queue ++ s.transit) :
    Waiting e { s with rxBuf, queue, transit } := by
  obtain ⟨unheard,_,ee,clean,silent,scraps,k,mutes,i,feed,scrap,out,mute,order,bound⟩ := waiting
  exact ⟨unheard,unread,ee,clean,fun booting => ⟨(silent booting).1,same.trans (silent booting).2⟩,
    scraps,k,mutes,i,feed,scrap,same.trans out,mute,order,bound⟩

theorem Waiting.sent (waiting : Waiting e s) :
    Waiting e { s with input := s.input ++ (ascii "ping" ++ [lineFeed]), pings := s.pings + 1 } := by
  obtain ⟨unheard,unread,ee,clean,silent,scraps,k,mutes,i,feed,scrap,out,mute,order,bound⟩ := waiting
  refine ⟨unheard,unread,ee,clean,silent,scraps,k + 1,mutes,i,?_,scrap,out,mute,order,?_⟩
  · change s.inbuf ++ (s.input ++ (ascii "ping" ++ [lineFeed])) = _
    have word : ascii "ping" ++ [lineFeed] = join lineFeed [ascii "ping"] := rfl
    rw [← List.append_assoc,feed,word,← join_append,List.append_assoc,List.replicate_succ']
  · change i + (k + 1) ≤ s.pings + 1
    omega

/-- A line that `read_line` finds is the first of those on their way. -/
theorem Waiting.line (waiting : Waiting e s) {nl : Nat} (found : find lineFeed s.rxBuf = some nl) (cleared : Bool) :
    Waiting e { s with rxBuf := s.rxBuf.drop (nl + 1) } ∧
      (decodeLine (s.rxBuf.take nl) = ascii "OK pong" →
        Settled e { s with rxBuf := [], queue := if cleared then [] else s.queue, phase := .synced }) := by
  obtain ⟨inside,fresh,split⟩ := find_split lineFeed s.rxBuf nl found
  constructor
  · refine waiting.dropped (nl + 1) _ _ _ waiting.unheard (fun draining => ?_) ?_
    · rw [waiting.unread draining,List.drop_nil]
    · rw [List.append_assoc,List.append_assoc,List.drop_append_of_le_length (by omega)]
  · intro pong
    obtain ⟨_,_,ee,clean,silent,scraps,k,mutes,i,feed,scrap,out,mute,order,bound⟩ := waiting
    have each : ∀ m ∈ mutes ++ List.replicate i pongLine, lineFeed ∉ m :=
      List.forall_mem_append.mpr ⟨fun m member => (mute m member).1,fun m member => by
        rw [List.eq_of_mem_replicate member]
        decide⟩
    have whole : s.rxBuf.take nl ++ lineFeed :: (s.rxBuf.drop (nl + 1) ++ (s.queue ++ s.transit)) =
        join lineFeed (mutes ++ List.replicate i pongLine) := by
      rw [← out,← List.cons_append,← List.append_assoc,← split,List.append_assoc]
    obtain ⟨later,segments,rest⟩ := join_head fresh each whole
    cases mutes with
    | cons m mutes =>
      -- a mute line would not have been taken for a pong
      obtain ⟨rfl,_⟩ := List.cons.inj segments
      exact absurd pong ((mute _ List.mem_cons_self).2 _ ((List.mem_tails _ _).mpr (List.suffix_refl _)))
    | nil =>
      cases i with
      | zero => cases segments
      | succ j =>
        obtain ⟨_,rfl⟩ := List.cons.inj segments
        obtain rfl := order.resolve_right (Nat.succ_ne_zero j)
        have running : s.booting = false := by
          by_contra booting
          rw [(silent (by simpa using booting)).2] at out
          cases out
        refine ⟨rfl,ee,clean,running,rfl,k,j,feed,?_,?_⟩
        · change (if cleared = true then [] else s.queue) ++ s.transit <:+ join lineFeed (List.replicate j pongLine)
          have left : (if cleared = true then [] else s.queue) ++ s.transit <:+ s.queue ++ s.transit := by
            split
            · exact List.suffix_append _ _
            · exact List.suffix_refl _
          exact left.trans (rest ▸ List.suffix_append _ _)
        · change j + k < s.pings
          omega

theorem Settled.take (settled : Settled e s) {lib : Library} (moved : s.take lib = some t) : Settled e t := by
  obtain ⟨heard,ee,clean,running,read,k,m,feed,out,bound⟩ := settled
  obtain ⟨inbuf,input,more,rfl,clean',cases⟩ :=
    take_cases [] clean (fun _ none => by cases none) feed moved
  rcases cases with ⟨same,rfl⟩ | ⟨_,_,_,none,_⟩ | ⟨j,_,rfl,left,rfl⟩
  · refine ⟨heard,ee,clean',running,read,k,m,same.trans feed,?_,bound⟩
    change s.queue ++ (s.transit ++ []) <:+ _
    rw [List.append_nil]
    exact out
  · cases none
  · refine ⟨heard,ee,clean',running,read,j,m + 1,left,?_,?_⟩
    · change s.queue ++ (s.transit ++ join lineFeed [pongLine]) <:+ _
      rw [← List.append_assoc,List.replicate_succ',join_append]
      exact List.suffix_append_self_iff.mpr out
    · change m + 1 + j < s.pings
      omega

/-! ### Every step -/

theorem Waiting.step (waiting : Waiting e s) {a : Action} (moved : s.step a = some t) : Waiting e t ∨ Settled e t := by
  cases a with
  | lose n =>
    simp only [Wire.step,Option.ite_none_right_eq_some,Option.some.injEq] at moved
    obtain ⟨booting,rfl⟩ := moved
    exact .inl (waiting.lose n booting)
  | boot lib =>
    simp only [Wire.step,Option.ite_none_right_eq_some,Option.some.injEq] at moved
    obtain ⟨booting,rfl⟩ := moved
    exact .inl (waiting.boot lib booting)
  | take lib =>
    simp only [Wire.step,Option.ite_none_left_eq_some] at moved
    exact .inl (waiting.take (by simpa using moved.1) moved.2)
  | arrive n =>
    obtain rfl := Option.some.inj moved
    refine .inl (waiting.moved waiting.unread ?_)
    rw [List.append_assoc,List.append_assoc,List.take_append_drop,← List.append_assoc]
  | drain n =>
    simp only [Wire.step,Option.ite_none_right_eq_some,Option.some.injEq] at moved
    obtain ⟨⟨draining,_⟩,rfl⟩ := moved
    refine .inl (waiting.dropped (min n s.queue.length) _ _ _ waiting.unheard waiting.unread ?_)
    rw [waiting.unread draining,List.nil_append,List.nil_append,List.drop_append_of_le_length (Nat.min_le_right _ _)]
    rcases Nat.le_total n s.queue.length with within | beyond
    · rw [Nat.min_eq_left within]
    · rw [Nat.min_eq_right beyond,List.drop_length,List.drop_of_length_le beyond]
  | ping =>
    simp only [Wire.step,Option.ite_none_right_eq_some,Option.some.injEq] at moved
    obtain ⟨_,rfl⟩ := moved
    have cleared := waiting.dropped (s.rxBuf ++ s.queue).length [] [] .listening
      (by decide) (fun _ => rfl) (by rw [List.drop_left]; rfl)
    exact .inl cleared.sent
  | read n =>
    simp only [Wire.step,Option.ite_none_right_eq_some,Option.some.injEq] at moved
    obtain ⟨⟨listening,_⟩,rfl⟩ := moved
    refine .inl (waiting.moved (fun draining => by rw [listening] at draining; cases draining) ?_)
    rw [List.append_assoc s.rxBuf,List.take_append_drop]
  | line cleared =>
    simp only [Wire.step,Option.ite_none_right_eq_some] at moved
    obtain ⟨_,moved⟩ := moved
    cases found : find lineFeed s.rxBuf with
    | none =>
      rw [found] at moved
      cases moved
    | some nl =>
      rw [found] at moved
      dsimp only at moved
      obtain ⟨left,heard⟩ := waiting.line found cleared
      split at moved
      next pong =>
        obtain rfl := Option.some.inj moved
        exact .inr (heard pong)
      · obtain rfl := Option.some.inj moved
        exact .inl left
  | expire =>
    simp only [Wire.step,Option.ite_none_right_eq_some,Option.some.injEq] at moved
    obtain ⟨_,rfl⟩ := moved
    exact .inl (waiting.dropped 0 _ _ _ (by decide) (fun draining => by cases draining) rfl)
  | fail =>
    simp only [Wire.step,Option.ite_none_left_eq_some,Option.some.injEq] at moved
    obtain ⟨_,rfl⟩ := moved
    exact .inl (waiting.dropped 0 _ _ _ (by decide) (fun draining => by cases draining) rfl)

/-- After the handshake only the Nano and the bytes on their way move. -/
theorem Settled.step (settled : Settled e s) {a : Action} (moved : s.step a = some t) : Settled e t := by
  have heard := settled.heard
  cases a with
  | take lib =>
    simp only [Wire.step,Option.ite_none_left_eq_some] at moved
    exact settled.take moved.2
  | arrive n =>
    obtain rfl := Option.some.inj moved
    obtain ⟨_,ee,clean,running,read,k,m,feed,out,bound⟩ := settled
    refine ⟨heard,ee,clean,running,read,k,m,feed,?_,bound⟩
    change s.queue ++ s.transit.take n ++ s.transit.drop n <:+ _
    rw [List.append_assoc,List.take_append_drop]
    exact out
  | lose n | boot lib =>
    simp only [Wire.step,settled.running,Bool.false_eq_true,if_false] at moved
    cases moved
  | drain n | ping | read n | line cleared | expire | fail =>
    simp [Wire.step,heard] at moved

end R503.Sync

import R503.FirmwareGate

/-! The serial link of the pairing tools (pairing.rs): one line out, one reply back, and the
reply to `status`. -/
namespace R503.Host

open Text Firmware

/-- The line `cmd_labeled` returns among those the Nano prints. -/
def linkReply (out : List Effect) : Option Bytes :=
  (out.filterMap Effect.wire).find? fun line => line ≠ [] ∧ ¬ (ascii "PROGRESS ").isPrefixOf line

/-- One command over a link that delivers every line, on a Nano that handles it to the end. -/
def exchange (e : Eeprom) (lib : Library) (line : Bytes) : Eeprom × Option Bytes :=
  let out := processLine e lib line
  (out.foldl Effect.apply e,linkReply out)

structure FirmwareStatus where
  paired : Bool
  counter : UInt64
  fmt : UInt8
  fw : Bytes
  deriving DecidableEq

inductive StatusError where
  | missingOk (line : Bytes)
  | missingPaired
  | missingCounter
  | missingFmt
  | missingFw
  deriving DecidableEq

structure StatusFields where
  paired : Option Bool
  counter : Option UInt64
  fmt : Option UInt8
  fw : Option Bytes

def u8FromStr (s : Bytes) : Option UInt8 := (natFromStr (2 ^ 8) s).map UInt8.ofNat

/-- One token of the reply; a later token of the same name wins. -/
def statusField (fields : StatusFields) (tok : Bytes) : StatusFields :=
  match splitOnce 61 tok with
  | none => fields
  | some (k,v) =>
    if k = ascii "paired" then { fields with paired := some (v == ascii "true") }
    else if k = ascii "counter" then { fields with counter := u64FromStr v }
    else if k = ascii "fmt" then { fields with fmt := u8FromStr v }
    else if k = ascii "fw" then { fields with fw := some v }
    else fields

def parseStatus (line : Bytes) : Except StatusError FirmwareStatus :=
  match stripPrefix (ascii "OK ") line with
  | none => .error (.missingOk line)
  | some body =>
    match (splitWhitespace body).foldl statusField ⟨none,none,none,none⟩ with
    | ⟨none,_,_,_⟩ => .error .missingPaired
    | ⟨some _,none,_,_⟩ => .error .missingCounter
    | ⟨some _,some _,none,_⟩ => .error .missingFmt
    | ⟨some _,some _,some _,none⟩ => .error .missingFw
    | ⟨some paired,some counter,some fmt,some fw⟩ => .ok ⟨paired,counter,fmt,fw⟩

/-! ### The reply to `status` -/

def flag (paired : Bool) : Bytes := if paired then ascii "true" else ascii "false"

def statusLine (paired : Bool) (counter : UInt64) : Bytes :=
  ascii "OK paired=" ++ flag paired ++ ascii " counter=" ++ formatU64 counter ++ ascii " fmt=2 fw=1.1"

theorem printable_digits (n : Nat) : ∀ c ∈ Decimal.render n, Text.Printable c := by
  intro c member
  have digit := (Decimal.isDigit_iff c).mp (Decimal.render_digits n c member)
  rw [Text.Printable,UInt8.le_iff_toNat_le,UInt8.lt_iff_toNat_lt]
  exact ⟨Nat.le_trans (by decide) digit.1,Nat.lt_of_le_of_lt digit.2 (by decide)⟩

theorem statusLine_words (paired : Bool) (counter : UInt64) :
    stripPrefix (ascii "OK ") (statusLine paired counter) =
      some (ascii "paired=" ++ flag paired ++ space :: (ascii "counter=" ++ Decimal.render counter.toNat ++
        space :: (ascii "fmt=2" ++ space :: ascii "fw=1.1"))) := by
  rw [stripPrefix_some_iff,statusLine,formatU64_eq]
  simp [ascii,space]

section
variable (fields : StatusFields)

theorem statusField_paired (paired : Bool) :
    statusField fields (ascii "paired=" ++ flag paired) = { fields with paired := some paired } := by
  cases paired <;> rfl

theorem statusField_counter (counter : UInt64) :
    statusField fields (ascii "counter=" ++ Decimal.render counter.toNat) =
      { fields with counter := some counter } := by
  have split : splitOnce 61 (ascii "counter=" ++ Decimal.render counter.toNat) =
      some (ascii "counter",Decimal.render counter.toNat) :=
    splitOnce_append 61 (ascii "counter") _ (by decide)
  have other : ascii "counter" ≠ ascii "paired" := by decide
  simp only [statusField,split,other,↓reduceIte,u64FromStr_render]

theorem statusField_fmt : statusField fields (ascii "fmt=2") = { fields with fmt := some 2 } := rfl

theorem statusField_fw : statusField fields (ascii "fw=1.1") = { fields with fw := some (ascii "1.1") } := rfl

end

/-- The reply the firmware prints is read back as its own state. -/
theorem parseStatus_statusLine (paired : Bool) (counter : UInt64) :
    parseStatus (statusLine paired counter) = .ok ⟨paired,counter,2,ascii "1.1"⟩ := by
  have pairedWord : ∀ c ∈ ascii "paired=" ++ flag paired, Text.Printable c := by cases paired <;> decide +kernel
  have counterWord : ∀ c ∈ ascii "counter=" ++ Decimal.render counter.toNat, Text.Printable c := by
    refine List.forall_mem_append.mpr ⟨by decide +kernel,printable_digits _⟩
  have words : splitWhitespace (ascii "paired=" ++ flag paired ++ space :: (ascii "counter=" ++
      Decimal.render counter.toNat ++ space :: (ascii "fmt=2" ++ space :: ascii "fw=1.1"))) =
      [ascii "paired=" ++ flag paired,ascii "counter=" ++ Decimal.render counter.toNat,ascii "fmt=2",
        ascii "fw=1.1"] := by
    rw [splitWhitespace_cons _ _ (by simp [ascii]) pairedWord,
      splitWhitespace_cons _ _ (by simp [ascii]) counterWord]
    rfl
  rw [parseStatus,statusLine_words]
  simp only [words,List.foldl_cons,List.foldl_nil,statusField_paired,statusField_counter,statusField_fmt,
    statusField_fw]

/-! ### Exchanges -/

theorem printTo_serial (line text : Bytes) (clean : lineFeed ∉ text) :
    printTo serialWrite line text = (line ++ text,[]) := by
  induction text generalizing line with
  | nil => simp [printTo]
  | cons c text ih =>
    have notFeed : c ≠ lineFeed := fun h => clean (by simp [h])
    have rest : lineFeed ∉ text := fun h => clean (List.mem_cons_of_mem _ h)
    simp [printTo,serialWrite,notFeed,ih _ rest]

theorem emit_serial_println (finish : Bytes → List Effect) (line : Bytes) (pieces : List Bytes)
    (rest : List Output) (clean : ∀ piece ∈ pieces, lineFeed ∉ piece) :
    emit serialWrite finish line (println pieces ++ rest) =
      .serial (line ++ pieces.flatten) :: emit serialWrite finish [] rest := by
  induction pieces generalizing line with
  | nil => simp [println,emit,printTo,serialWrite,carriageReturn,lineFeed]
  | cons piece pieces ih =>
    obtain ⟨first,others⟩ := List.forall_mem_cons.mp clean
    rw [println,List.cons_append,emit,printTo_serial line piece first]
    simp only [List.nil_append,ih _ others,List.flatten_cons,List.append_assoc]

theorem plainOutput_println (pieces : List Bytes) (clean : ∀ piece ∈ pieces, lineFeed ∉ piece) :
    plainOutput (println pieces) = [.serial pieces.flatten] := by
  have printed := emit_serial_println (fun _ => []) [] pieces [] clean
  rwa [List.append_nil,List.nil_append] at printed

theorem emit_updates (write : σ → UInt8 → σ × List Effect) (finish : σ → List Effect) (s : σ)
    (writes : List (Nat × UInt8)) (rest : List Output) :
    emit write finish s (updates writes ++ rest) =
      writes.map (fun w => .update w.1 w.2) ++ emit write finish s rest := by
  induction writes with
  | nil => rfl
  | cons w writes ih =>
    rw [List.map_cons,List.cons_append,← ih]
    rfl

theorem apply_updates (e : Eeprom) (writes : List (Nat × UInt8)) :
    (writes.map fun w => Effect.update w.1 w.2).foldl Effect.apply e = Store.apply e writes := by
  rw [List.foldl_map]
  rfl

@[simp] theorem exchange_ping (e : Eeprom) (lib : Library) :
    exchange e lib (ascii "ping") = (e,some (ascii "OK pong")) := rfl

theorem plainOutput_status (e : Eeprom) :
    plainOutput (handleStatus e) = [.serial (statusLine (eeIsPaired e) (eeLoadCounter e))] := by
  have flagClean : lineFeed ∉ flag (eeIsPaired e) := by unfold flag; split <;> decide
  have clean : ∀ piece ∈ [ascii "OK paired=",flag (eeIsPaired e),ascii " counter=",
      formatU64 (eeLoadCounter e),ascii " fmt=",number eeFormatVersion.toNat,ascii " fw=1.1"],
      lineFeed ∉ piece := by
    simp only [List.forall_mem_cons,(formatU64_lineText _).lineFeed,(number_lineText _).lineFeed,not_false_eq_true,
      flagClean,true_and,List.not_mem_nil,false_implies,implies_true,and_true]
    decide
  have fmt : ascii " fmt=" ++ (number eeFormatVersion.toNat ++ ascii " fw=1.1") = ascii " fmt=2 fw=1.1" := by
    decide
  have printed := plainOutput_println _ clean
  simp only [List.flatten_cons,List.flatten_nil,List.append_nil,fmt] at printed
  change plainOutput (println [ascii "OK paired=",flag (eeIsPaired e),ascii " counter=",
    formatU64 (eeLoadCounter e),ascii " fmt=",number eeFormatVersion.toNat,ascii " fw=1.1"]) = _
  rw [printed,statusLine]
  simp only [List.append_assoc]

/-- The reply to `status` is the state of the Nano, which it leaves alone. -/
@[simp] theorem exchange_status (e : Eeprom) (lib : Library) :
    exchange e lib (ascii "status") = (e,some (statusLine (eeIsPaired e) (eeLoadCounter e))) := by
  have effects : processLine e lib (ascii "status") =
      [.dispatch none (ascii "status"),.serial (statusLine (eeIsPaired e) (eeLoadCounter e))] := by
    rw [processLine,if_neg (by decide),if_pos (by decide),plainDispatch,dispatch_status e lib (by decide),
      plainOutput_status]
  rw [exchange,effects]
  rfl

theorem dispatch_pair (e : Eeprom) (lib : Library) (args : Bytes) :
    dispatch e lib (ascii "pair " ++ args) = handlePair e (cString args) := by
  have lead := startsWith_append "pair " args
  have other {word : String} := not_equals_append word args (show 0 ∉ ascii "pair " by decide)
  have notSlot : ¬ startsWith (ascii "pair " ++ args) "enroll " ∧ ¬ startsWith (ascii "pair " ++ args) "delete " :=
    ⟨Bool.false_ne_true,Bool.false_ne_true⟩
  unfold dispatch
  rw [if_neg (other (by decide)),if_neg (other (by decide)),
    if_neg (not_or.mpr ⟨other (by decide),other (by decide)⟩),if_neg (other (by decide)),
    if_neg (other (by decide)),if_neg notSlot.1,if_neg notSlot.2,if_neg (other (by decide)),if_pos lead]
  rfl

theorem handlePair_unpaired (e : Eeprom) (key : Key) (unpaired : eeIsPaired e = false) :
    handlePair e (Hex.encode key.bytes) = updates (eeSavePairingWrites key) ++ say "OK paired" := by
  have digits : (Hex.encode key.bytes).length = 32 := by rw [Hex.encode_length,key.size]
  have decoded : hexToBytes (Hex.encode key.bytes) 16 = some key.bytes := by simp [hexToBytes,digits]
  simp [handlePair,unpaired,digits,decoded,key.size]

/-- An unpaired Nano stores the key it is sent. -/
theorem exchange_pair (e : Eeprom) (lib : Library) (key : Key) (unpaired : eeIsPaired e = false) :
    exchange e lib (ascii "pair " ++ Hex.encode key.bytes) = (eeSavePairing e key,some (ascii "OK paired")) := by
  have noNul : 0 ∉ Hex.encode key.bytes := fun inside => absurd (Hex.encode_printable _ 0 inside).1 (by decide)
  have effects : processLine e lib (ascii "pair " ++ Hex.encode key.bytes) =
      .dispatch none (ascii "pair " ++ Hex.encode key.bytes) ::
        (eeSavePairingWrites key).map (fun w => .update w.1 w.2) ++ [.serial (ascii "OK paired")] := by
    have other {word : String} := not_equals_append word (Hex.encode key.bytes)
      (show 0 ∉ ascii "pair " by decide)
    rw [processLine,if_neg (other (by decide)),if_neg (other (by decide)),if_pos (by simp [unpaired]),
      plainDispatch,dispatch_pair,cString_clean _ noNul,handlePair_unpaired e key unpaired,plainOutput,emit_updates]
    rfl
  rw [exchange,effects]
  have silent : ((eeSavePairingWrites key).map fun w => Effect.update w.1 w.2).filterMap Effect.wire = [] := by
    simp [Effect.wire]
  refine Prod.ext ?_ ?_
  · simp only [List.cons_append,List.foldl_cons,List.foldl_append,List.foldl_nil]
    exact apply_updates e (eeSavePairingWrites key)
  · simp only [linkReply,List.cons_append,List.filterMap_cons,List.filterMap_append,silent]
    rfl

end R503.Host

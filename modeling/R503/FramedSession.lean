import R503.FirmwareMachine

/-! The frames of one framed dispatch: the handler's lines in order, numbered from zero. -/
namespace R503.Firmware

open Text

def frames (effects : List Effect) : List (UInt64 × UInt32 × Bytes) :=
  effects.filterMap fun x => match x with | .frame _ c s b => some (c,s,b) | _ => none

def updatesOf (effects : List Effect) : List (Nat × UInt8) :=
  effects.filterMap fun x => match x with | .update a v => some (a,v) | _ => none

def numbered (counter : UInt64) : UInt32 → List Bytes → List (UInt64 × UInt32 × Bytes)
  | _, [] => []
  | seq, body :: bodies => (counter,seq,body) :: numbered counter (seq + 1) bodies

def IsAnswer (bodies : List Bytes) : Prop :=
  ∃ progress last, bodies = progress ++ [last] ∧ (∀ p ∈ progress, IsProgress p) ∧ IsTerminal last

theorem terminal_not_progress (text : Bytes) (terminal : IsTerminal text) : ¬ IsProgress text := by
  cases text with
  | nil => revert terminal; decide
  | cons c text =>
    simp only [IsTerminal,IsProgress,ascii] at terminal ⊢
    rintro progress
    simp [List.isPrefixOf] at terminal progress
    obtain ⟨rfl,_⟩ := progress
    rcases terminal with ⟨impossible,_⟩ | ⟨impossible,_⟩ <;> exact absurd impossible (by decide)

theorem seq_succ (first : UInt32) (k : Nat) :
    first + UInt32.ofNat (k + 1) = first + 1 + UInt32.ofNat k := by
  rw [UInt32.add_assoc,UInt32.ofNat_add,UInt32.add_comm (UInt32.ofNat k)]
  rfl

theorem numbered_append (counter : UInt64) (seq : UInt32) (a b : List Bytes) :
    numbered counter seq (a ++ b) = numbered counter seq a ++
      numbered counter (seq + UInt32.ofNat a.length) b := by
  induction a generalizing seq with
  | nil => simp [numbered]
  | cons body a ih =>
    simp only [List.cons_append,numbered,ih,List.length_cons]
    rw [seq_succ]

theorem mem_numbered (counter c : UInt64) (first seq : UInt32) (body : Bytes) (bodies : List Bytes) :
    (c,seq,body) ∈ numbered counter first bodies ↔
      c = counter ∧ ∃ k, bodies[k]? = some body ∧ seq = first + UInt32.ofNat k := by
  induction bodies generalizing first with
  | nil => simp [numbered]
  | cons head bodies ih =>
    simp only [numbered,List.mem_cons,Prod.mk.injEq,ih]
    constructor
    · rintro (⟨rfl,rfl,rfl⟩ | ⟨rfl,k,here,rfl⟩)
      · exact ⟨rfl,0,rfl,by simp⟩
      · exact ⟨rfl,k + 1,here,(seq_succ first k).symm⟩
    · rintro ⟨rfl,k,here,rfl⟩
      cases k with
      | zero =>
        left
        exact ⟨rfl,by simp,by simpa using here.symm⟩
      | succ k =>
        right
        exact ⟨rfl,k,here,seq_succ first k⟩

section
variable (key : Key) (counter : UInt64)

def kept (text : Bytes) : Bytes := (text.filter (· != carriageReturn)).take framerCapacity

theorem printTo_append (write : σ → UInt8 → σ × List Effect) (s : σ) (a b : Bytes) :
    printTo write s (a ++ b) =
      ((printTo write (printTo write s a).1 b).1,
        (printTo write s a).2 ++ (printTo write (printTo write s a).1 b).2) := by
  induction a generalizing s with
  | nil => simp [printTo]
  | cons c a ih => simp [printTo,ih]

/-- Characters of a line gather in the buffer and put nothing out. -/
theorem printTo_text (f : LineFramer) (text : Bytes) (clean : lineFeed ∉ text)
    (room : f.line.length ≤ framerCapacity) :
    printTo (LineFramer.write key counter) f text =
      (⟨(f.line ++ text.filter (· != carriageReturn)).take framerCapacity,f.seq⟩,[]) := by
  induction text generalizing f with
  | nil => simp [printTo,List.take_of_length_le room]
  | cons c text ih =>
    have notFeed : c ≠ lineFeed := fun h => clean (by simp [h])
    have rest : lineFeed ∉ text := fun h => clean (List.mem_cons_of_mem _ h)
    by_cases isReturn : c = carriageReturn
    · subst c
      simp only [printTo,LineFramer.write,notFeed,↓reduceIte,ih f rest room]
      simp
    · have more : (c != carriageReturn) = true := by simpa using isReturn
      by_cases space : f.line.length < framerCapacity
      · simp only [printTo,LineFramer.write,notFeed,isReturn,space,↓reduceIte]
        rw [ih ⟨f.line ++ [c],f.seq⟩ rest (by simpa using space)]
        simp [more]
      · have full : f.line.length = framerCapacity := le_antisymm room (not_lt.mp space)
        simp only [printTo,LineFramer.write,notFeed,isReturn,space,↓reduceIte,ih f rest room]
        simp [← full]

/-- A line and its terminator leave one frame and an empty buffer. -/
theorem printTo_line (seq : UInt32) (text : Bytes) (clean : lineFeed ∉ text) (some : kept text ≠ []) :
    printTo (LineFramer.write key counter) ⟨[],seq⟩ (text ++ [carriageReturn,lineFeed]) =
      (⟨[],seq + 1⟩,[.frame key counter seq (kept text)]) := by
  have gathered := printTo_text key counter ⟨[],seq⟩ text clean (Nat.zero_le _)
  rw [printTo_append,gathered]
  have line : (([] ++ text.filter (· != carriageReturn)).take framerCapacity) = kept text := rfl
  rw [line]
  simp [printTo,LineFramer.write,flushLine,some,carriageReturn,lineFeed]

theorem emit_println (f : LineFramer) (pieces : List Bytes) (rest : List Output) :
    emit (LineFramer.write key counter) (lastFlush key counter) f (println pieces ++ rest) =
      (printTo (LineFramer.write key counter) f (pieces.flatten ++ [carriageReturn,lineFeed])).2 ++
        emit (LineFramer.write key counter) (lastFlush key counter)
          (printTo (LineFramer.write key counter) f (pieces.flatten ++ [carriageReturn,lineFeed])).1
          rest := by
  induction pieces generalizing f with
  | nil => rfl
  | cons piece pieces ih =>
    rw [List.flatten_cons,List.append_assoc piece,printTo_append _ f]
    simp only [println,List.cons_append,emit,ih,List.append_assoc]

theorem kept_head (word text : Bytes) (short : word.length ≤ framerCapacity)
    (clean : carriageReturn ∉ word) (lead : word.isPrefixOf text = true) :
    word.isPrefixOf (kept text) = true := by
  obtain ⟨rest,rfl⟩ := List.isPrefixOf_iff_prefix.mp lead
  have same : word.filter (· != carriageReturn) = word := by
    refine List.filter_eq_self.mpr fun c member => ?_
    exact bne_iff_ne.mpr fun isReturn => clean (isReturn ▸ member)
  rw [List.isPrefixOf_iff_prefix,kept,List.filter_append,same]
  exact (List.prefix_take_iff).mpr ⟨List.prefix_append _ _,short⟩

theorem kept_progress (text : Bytes) (progress : IsProgress text) : IsProgress (kept text) :=
  kept_head _ _ (by decide) (by decide) progress

theorem kept_terminal (text : Bytes) (terminal : IsTerminal text) : IsTerminal (kept text) :=
  terminal.imp (kept_head _ _ (by decide) (by decide)) (kept_head _ _ (by decide) (by decide))

theorem progress_ne_nil (text : Bytes) (progress : IsProgress text) : text ≠ [] := by
  rintro rfl
  revert progress
  decide

theorem terminal_ne_nil (text : Bytes) (terminal : IsTerminal text) : text ≠ [] := by
  rintro rfl
  revert terminal
  decide

theorem length_kept (text : Bytes) : (kept text).length ≤ text.length := by
  rw [kept,List.length_take]
  exact (Nat.min_le_right _ _).trans (List.length_filter_le _ _)

theorem mem_kept {text : Bytes} {c : UInt8} (member : c ∈ kept text) : c ∈ text :=
  List.mem_of_mem_filter (List.mem_of_mem_take member)

/-- A shaped output makes one frame of what is kept of each line and updates nothing else. -/
theorem emit_printed {P : Bytes → Prop} (seq : UInt32) (printed : Printed P writes room out) :
    ∃ bodies, bodies.length ≤ room + 1 ∧ IsAnswer bodies ∧ (∀ body ∈ bodies, ∃ line, P line ∧ body = kept line) ∧
      frames (emit (LineFramer.write key counter) (lastFlush key counter) ⟨[],seq⟩ out) =
        numbered counter seq bodies ∧
      updatesOf (emit (LineFramer.write key counter) (lastFlush key counter) ⟨[],seq⟩ out) =
        writes := by
  induction printed generalizing seq with
  | update a v _ ih =>
    obtain ⟨bodies,short,answer,all,lines,updates⟩ := ih seq
    exact ⟨bodies,short,answer,all,by simpa [emit,frames] using lines,
      by simpa [emit,updatesOf] using updates⟩
  | sensor call _ ih =>
    obtain ⟨bodies,short,answer,all,lines,updates⟩ := ih seq
    exact ⟨bodies,short,answer,all,by simpa [emit,frames] using lines,
      by simpa [emit,updatesOf] using updates⟩
  | progress pieces progress clean has _ ih =>
    obtain ⟨bodies,short,⟨before,last,rfl,lead,terminal⟩,all,lines,updates⟩ := ih (seq + 1)
    have isLine := kept_progress _ progress
    have printed := printTo_line key counter seq _ clean (progress_ne_nil _ isLine)
    refine ⟨kept pieces.flatten :: (before ++ [last]),by simpa using short,
      ⟨kept pieces.flatten :: before,last,rfl,List.forall_mem_cons.mpr ⟨isLine,lead⟩,terminal⟩,
      List.forall_mem_cons.mpr ⟨⟨_,has,rfl⟩,all⟩,?_,?_⟩
    · rw [emit_println,printed]
      simpa [frames,numbered] using lines
    · rw [emit_println,printed]
      simpa [updatesOf] using updates
  | terminal pieces room terminal clean has =>
    have isLine := kept_terminal _ terminal
    have printed := printTo_line key counter seq _ clean (terminal_ne_nil _ isLine)
    have flushed := emit_println key counter ⟨[],seq⟩ pieces []
    rw [List.append_nil,printed] at flushed
    refine ⟨[kept pieces.flatten],by simp,⟨[],_,rfl,by simp,isLine⟩,
      List.forall_mem_singleton.mpr ⟨_,has,rfl⟩,?_,?_⟩
    · rw [flushed]
      simp [frames,numbered,emit,lastFlush,flushLine]
    · rw [flushed]
      simp [updatesOf,emit,lastFlush,flushLine]

theorem emit_shaped (seq : UInt32) (shaped : Shaped writes room out) :
    ∃ bodies, bodies.length ≤ room + 1 ∧ IsAnswer bodies ∧
      frames (emit (LineFramer.write key counter) (lastFlush key counter) ⟨[],seq⟩ out) =
        numbered counter seq bodies ∧
      updatesOf (emit (LineFramer.write key counter) (lastFlush key counter) ⟨[],seq⟩ out) =
        writes := by
  obtain ⟨bodies,short,answer,_,rest⟩ := emit_printed key counter seq shaped.printed
  exact ⟨bodies,short,answer,rest⟩

end

end R503.Firmware

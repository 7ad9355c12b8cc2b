import ResolverRecovery.Proofs.QuickLz.Bounds

/-!
# Decoding with every access checked

The decoder takes zero for a byte that is not there, passes over what cannot be written, and
subtracts no further than to zero.  Here is a second decoder, which gives up at the first read or
write outside an array and at the first subtraction that would go below zero.  It never gives up:
on every stream it answers as the decoder does.

Where the format has zeros past the end of the stream, both decoders look for a byte and go on
without it; that is no access.

## Main definitions

* `Breach`: an access outside an array, or a subtraction below zero.
* `Checked.step`, `Checked.run`, `Checked.decompress`: the decoder with every access checked.

## Main statements

* `Checked.step_eq`, `Checked.run_eq`: within bounds, a step and a run are free of breaches.
* `Checked.decompress_eq`: the answer is the same for every stream.
-/

namespace ResolverRecovery.Codec.QuickLz

/-- What a checked decoder gives up at. -/
inductive Breach where
  | read (position size : Nat)
  | write (position size : Nat)
  | subtraction (minuend subtrahend : Nat)
  deriving DecidableEq

namespace Checked

/-! ### Accesses -/

/-- The element at a position, which has to be there. -/
def read {α : Type} (a : Array α) (position : Nat) : Except Breach α :=
  if h : position < a.size then .ok a[position] else .error (.read position a.size)

/-- The array with another element at a position, which has to be there. -/
def write {α : Type} (a : Array α) (position : Nat) (value : α) : Except Breach (Array α) :=
  if h : position < a.size then .ok (a.set position value h)
  else .error (.write position a.size)

/-- The difference, which has to exist. -/
def subtract (m n : Nat) : Except Breach Nat :=
  if n ≤ m then .ok (m - n) else .error (.subtraction m n)

/-- A part of the decoding and what follows it, unless there is a fault or a breach. -/
def andThen {α β : Type} (first : Except Breach (EStateM.Result Fault State α))
    (second : State → Except Breach (EStateM.Result Fault State β)) :
    Except Breach (EStateM.Result Fault State β) := do
  match ← first with
  | .error fault s => return .error fault s
  | .ok _ s => second s

/-! ### The parts of a step -/

/-- Enters the next `n` positions into their buckets. -/
def enter : Nat → State → Except Breach State
  | 0, s => .ok s
  | n + 1, s => do
    let buckets ← write s.buckets (bucketOf (outputWord s.output s.entered)) s.entered
    enter n { s with buckets := buckets, entered := s.entered + 1 }

/-- Enters every position up to `last` that has not been entered, if there are any. -/
def enterThrough (last : Nat) (s : State) : Except Breach State :=
  enter (last + 1 - s.entered) s

/-- Copies `n` bytes one by one. -/
def copyForward : Nat → Nat → Nat → Array UInt8 → Except Breach (Array UInt8)
  | 0, _, _, output => .ok output
  | n + 1, source, target, output => do
    let byte ← read output source
    let output ← write output target byte
    copyForward n (source + 1) (target + 1) output

/-- Brings buckets and look-ahead up to date after a literal. -/
def afterLiteral (f : Frame) (s : State) : Except Breach State :=
  if f.level = .one ∧ 3 ≤ s.written then do
    let last ← subtract s.written 3
    let t ← enterThrough last s
    return { t with lookahead := f.shiftedLookahead t }
  else
    return { s with lookahead := f.shiftedLookahead s }

/-- Copies `length` bytes from position `source` of the output to its end. -/
def copyWithin (f : Frame) (source length : Nat) (s : State) :
    Except Breach (EStateM.Result Fault State Unit) :=
  if s.written ≤ source ∨ f.size < s.written + length then
    return .error (.copyOutOfRange length s.written) s
  else do
    let output ← copyForward length source s.written s.output
    return .ok () { s with output := output, written := s.written + length }

/-- Reads a match of level 1. -/
def bucketMatch (f : Frame) (s : State) : Except Breach (EStateM.Result Fault State Unit) := do
  let source ← read s.buckets (s.lookahead / 16 % bucketCount)
  andThen (copyWithin f source (f.matchLength s) (f.pastMatch s)) fun t => do
    let last ← subtract t.written (f.matchLength s)
    let u ← enterThrough last t
    return .ok () { u with entered := t.written }

/-- Reads a match of level 3. -/
def offsetMatch (f : Frame) (s : State) : Except Breach (EStateM.Result Fault State Unit) :=
  if (Form.ofWord s.lookahead).offset s.lookahead = 0 ∨
      s.written < (Form.ofWord s.lookahead).offset s.lookahead then
    return .error (.badOffset ((Form.ofWord s.lookahead).offset s.lookahead) s.written)
      (f.pastMatch s)
  else do
    let source ← subtract s.written ((Form.ofWord s.lookahead).offset s.lookahead)
    copyWithin f source (f.matchLength s) (f.pastMatch s)

/-- Reads the match that the look-ahead holds and copies what it stands for. -/
def copyMatch (f : Frame) (s : State) : Except Breach (EStateM.Result Fault State Unit) :=
  match f.level with
  | .one => bucketMatch f s
  | .three => offsetMatch f s

/-- A step.  Control words and literals are looked for before they are taken, so that what is
missing is a fault and not a breach. -/
def step (f : Frame) (s : State) : Except Breach (EStateM.Result Fault State Bool) :=
  andThen (.ok (f.refill s)) fun t =>
    if t.control % 2 = 1 then
      andThen (copyMatch f t.shift) fun u => .ok (.ok false { u with lookahead := f.peek u.cursor })
    else if f.inBody t then
      andThen (.ok (f.literal t)) fun u => do
        let v ← afterLiteral f u.shift
        return .ok false v
    else
      andThen (.ok (f.literals (f.size - t.written) t)) fun u => .ok (.ok true u)

/-! ### Without a breach there is no difference -/

/-- A checked computation comes to this value, or to a breach. -/
def Agrees {α : Type} (checked : Except Breach α) (value : α) : Prop :=
  ∀ v, checked = .ok v → v = value

namespace Agrees

theorem pure {α : Type} (value : α) : Agrees (.ok value) value := by
  rintro v ⟨⟩
  rfl

theorem bind {α β : Type} {checked : Except Breach α} {value : α} {rest : α → Except Breach β}
    {result : β} (h : Agrees checked value) (hrest : Agrees (rest value) result) :
    Agrees (checked >>= rest) result := by
  intro v hv
  cases hchecked : checked with
  | error breach =>
      rw [hchecked] at hv
      cases hv
  | ok w =>
      rw [hchecked] at hv
      exact hrest v (h w hchecked ▸ hv)

theorem andThen {α β : Type} {checked : Except Breach (EStateM.Result Fault State α)}
    {first : EStateM.Result Fault State α}
    {rest : State → Except Breach (EStateM.Result Fault State β)}
    {second : State → EStateM.Result Fault State β} (h : Agrees checked first)
    (hrest : ∀ s, Agrees (rest s) (second s)) :
    Agrees (Checked.andThen checked rest) (QuickLz.andThen first second) := by
  refine h.bind ?_
  cases first with
  | error fault s => exact pure _
  | ok _ s => exact hrest s

theorem read {α : Type} (a : Array α) (position : Nat) (default : α) :
    Agrees (Checked.read a position) (a.getD position default) := by
  intro v hv
  by_cases h : position < a.size
  · rw [Checked.read, dif_pos h] at hv
    cases hv
    exact Array.getElem_eq_getD default
  · rw [Checked.read, dif_neg h] at hv
    cases hv

theorem write {α : Type} (a : Array α) (position : Nat) (value : α) :
    Agrees (Checked.write a position value) (a.setIfInBounds position value) := by
  intro v hv
  by_cases h : position < a.size
  · rw [Checked.write, dif_pos h] at hv
    cases hv
    rw [Array.setIfInBounds, dif_pos h]
  · rw [Checked.write, dif_neg h] at hv
    cases hv

theorem subtract (m n : Nat) : Agrees (Checked.subtract m n) (m - n) := by
  unfold Checked.subtract
  split
  · exact pure _
  · rintro v ⟨⟩

theorem enter (n : Nat) (s : State) : Agrees (Checked.enter n s) (s.enter n) := by
  induction n generalizing s with
  | zero => exact pure s
  | succ n ih => exact (write _ _ _).bind (ih _)

theorem enterThrough (last : Nat) (s : State) :
    Agrees (Checked.enterThrough last s) (s.enterThrough last) :=
  enter _ s

theorem copyForward (n source target : Nat) (output : Array UInt8) :
    Agrees (Checked.copyForward n source target output)
      (QuickLz.copyForward n source target output) := by
  induction n generalizing source target output with
  | zero => exact pure output
  | succ n ih => exact (read _ _ 0).bind ((write _ _ _).bind (ih _ _ _))

variable (f : Frame) (s : State)

theorem afterLiteral : Agrees (Checked.afterLiteral f s) (f.afterLiteral s) := by
  unfold Checked.afterLiteral Frame.afterLiteral
  by_cases hdue : f.level = .one ∧ 3 ≤ s.written
  · rw [if_pos hdue, if_pos hdue]
    exact (subtract _ _).bind ((enterThrough _ _).bind (pure _))
  · rw [if_neg hdue, if_neg hdue]
    exact pure _

theorem copyWithin (source length : Nat) :
    Agrees (Checked.copyWithin f source length s) (f.copyWithin source length s) := by
  unfold Checked.copyWithin Frame.copyWithin
  split
  · exact pure _
  · exact (copyForward _ _ _ _).bind (pure _)

theorem bucketMatch (hlevel : f.level = .one) :
    Agrees (Checked.bucketMatch f s) (f.copyMatch s) := by
  rw [Frame.copyMatch_of_one hlevel, Frame.matchSource, hlevel]
  refine (read _ _ 0).bind (andThen (copyWithin f _ _ _) fun t => ?_)
  exact (subtract _ _).bind ((enterThrough _ _).bind (pure _))

theorem offsetMatch (hlevel : f.level = .three) :
    Agrees (Checked.offsetMatch f s) (f.copyMatch s) := by
  rw [Frame.copyMatch_of_three hlevel, Frame.matchSource, hlevel, Checked.offsetMatch]
  split
  · exact pure _
  · exact (subtract _ _).bind (copyWithin f _ _ _)

theorem copyMatch : Agrees (Checked.copyMatch f s) (f.copyMatch s) := by
  unfold Checked.copyMatch
  split
  · rename_i hlevel
    exact bucketMatch f s hlevel
  · rename_i hlevel
    exact offsetMatch f s hlevel

theorem step : Agrees (Checked.step f s) (f.step s) := by
  rw [Frame.step_eq]
  refine andThen (pure _) fun t => ?_
  split
  · exact andThen (copyMatch f _) fun u => pure _
  · split
    · exact andThen (pure _) fun u => (afterLiteral f _).bind (pure _)
    · exact andThen (pure _) fun u => pure _

end Agrees

/-! ### Within bounds there is no breach -/

section Bounded

theorem bind_eq_ok {α β : Type} {checked : Except Breach α} {value : α}
    {rest : α → Except Breach β} {result : β} (h : checked = .ok value)
    (hrest : rest value = .ok result) : (checked >>= rest) = .ok result := by
  rw [h]
  exact hrest

theorem andThen_eq_ok {α β : Type} {checked : Except Breach (EStateM.Result Fault State α)}
    {first : EStateM.Result Fault State α}
    {rest : State → Except Breach (EStateM.Result Fault State β)}
    {second : State → EStateM.Result Fault State β} (h : checked = .ok first)
    (hrest : ∀ a s, first = .ok a s → rest s = .ok (second s)) :
    andThen checked rest = .ok (QuickLz.andThen first second) := by
  refine bind_eq_ok h ?_
  cases first with
  | error fault s => rfl
  | ok a s => exact hrest a s rfl

theorem read_eq {α : Type} {a : Array α} {position : Nat} (h : position < a.size) (default : α) :
    read a position = .ok (a.getD position default) := by
  rw [read, dif_pos h, Array.getElem_eq_getD default]

theorem write_eq {α : Type} {a : Array α} {position : Nat} (h : position < a.size) (value : α) :
    write a position value = .ok (a.setIfInBounds position value) := by
  rw [write, dif_pos h, Array.setIfInBounds, dif_pos h]

theorem subtract_eq {m n : Nat} (h : n ≤ m) : subtract m n = .ok (m - n) :=
  if_pos h

/-- There is a place for every bucket, so that every position can be entered. -/
theorem enter_eq {s : State} (h : s.buckets.size = bucketCount) (n : Nat) :
    enter n s = .ok (s.enter n) := by
  induction n generalizing s with
  | zero => rfl
  | succ n ih =>
      have hroom : bucketOf (outputWord s.output s.entered) < s.buckets.size := by
        rw [h]
        exact bucketOf_lt _
      refine bind_eq_ok (write_eq hroom _) (ih ?_)
      rw [Array.size_setIfInBounds, h]

theorem enterThrough_eq {s : State} (h : s.buckets.size = bucketCount) (last : Nat) :
    enterThrough last s = .ok (s.enterThrough last) :=
  enter_eq h _

/-- A copy goes forward and ends within the output, so that every byte of it is there. -/
theorem copyForward_eq {n source target : Nat} {output : Array UInt8} (hsource : source ≤ target)
    (hroom : target + n ≤ output.size) :
    copyForward n source target output = .ok (QuickLz.copyForward n source target output) := by
  induction n generalizing source target output with
  | zero => rfl
  | succ n ih =>
      refine bind_eq_ok (read_eq (by omega) 0) (bind_eq_ok (write_eq (by omega) _) ?_)
      exact ih (by omega) (by rw [Array.size_setIfInBounds]; omega)

variable {f : Frame} {s : State}

theorem afterLiteral_eq (h : s.InBounds f) : afterLiteral f s = .ok (f.afterLiteral s) := by
  unfold afterLiteral Frame.afterLiteral
  by_cases hdue : f.level = .one ∧ 3 ≤ s.written
  · rw [if_pos hdue, if_pos hdue]
    exact bind_eq_ok (subtract_eq hdue.2) (bind_eq_ok (enterThrough_eq h.size_buckets _) rfl)
  · rw [if_neg hdue, if_neg hdue]
    rfl

theorem copyWithin_eq (h : s.InBounds f) (source length : Nat) :
    copyWithin f source length s = .ok (f.copyWithin source length s) := by
  unfold copyWithin Frame.copyWithin
  by_cases hrange : s.written ≤ source ∨ f.size < s.written + length
  · rw [if_pos hrange, if_pos hrange]
    rfl
  · rw [if_neg hrange, if_neg hrange]
    exact bind_eq_ok (copyForward_eq (by omega) (by rw [h.size_output]; omega)) rfl

theorem copyMatch_eq (h : s.InBounds f) : copyMatch f s = .ok (f.copyMatch s) := by
  have hpast : (f.pastMatch s).InBounds f := h.congr rfl rfl rfl
  unfold copyMatch
  split
  · rename_i hlevel
    have hbucket : s.lookahead / 16 % bucketCount < s.buckets.size := by
      rw [h.size_buckets]
      exact Nat.mod_lt _ (by decide)
    rw [Frame.copyMatch_of_one hlevel, Frame.matchSource, hlevel]
    refine bind_eq_ok (read_eq hbucket 0) (andThen_eq_ok (copyWithin_eq hpast _ _) ?_)
    -- what was copied lies before the write position, and the buckets are still those of `s`
    rintro _ t hcopied
    obtain rfl := Frame.copyWithin_eq_ok hcopied
    refine bind_eq_ok (subtract_eq (Nat.le_add_left _ _)) (bind_eq_ok (enterThrough_eq ?_ _) rfl)
    exact h.size_buckets
  · rename_i hlevel
    rw [Frame.copyMatch_of_three hlevel, Frame.matchSource, hlevel]
    unfold offsetMatch
    split
    · rfl
    · exact bind_eq_ok (subtract_eq (by omega)) (copyWithin_eq hpast _ _)

/-- Within bounds a step is free of breaches. -/
theorem step_eq (h : s.InBounds f) : step f s = .ok (f.step s) := by
  rw [Frame.step_eq]
  refine andThen_eq_ok rfl fun _ t hrefill => ?_
  have ht : t.InBounds f := (Frame.refill_inBounds h).of_eq_ok hrefill
  split
  · exact andThen_eq_ok (copyMatch_eq (ht.congr rfl rfl rfl)) fun _ u _ => rfl
  · split
    · refine andThen_eq_ok rfl fun _ u hliteral => bind_eq_ok (afterLiteral_eq ?_) rfl
      have hu : u.InBounds f := (Frame.literal_inBounds ht).of_eq_ok hliteral
      exact hu.congr rfl rfl rfl
    · exact andThen_eq_ok rfl fun _ u _ => rfl

end Bounded

/-! ### Runs -/

/-- Steps until the output is complete or a fault is met. -/
def run (f : Frame) (s : State) : Except Breach (EStateM.Result Fault State Unit) :=
  match _h : step f s with
  | .error breach => .error breach
  | .ok (.error fault t) => .ok (.error fault t)
  | .ok (.ok true t) => .ok (.ok () t)
  | .ok (.ok false t) => run f t
termination_by f.budget s
decreasing_by exact Frame.step_decreases ((Agrees.step f s _ _h).symm)

/-- Within bounds a run is free of breaches. -/
theorem run_eq {f : Frame} {s : State} (h : s.InBounds f) : run f s = .ok (f.run s) := by
  fun_induction f.run s with
  | case1 s fault t hstep =>
      have hchecked := step_eq h
      rw [hstep] at hchecked
      rw [run]
      split <;> simp_all
  | case2 s t hstep =>
      have hchecked := step_eq h
      rw [hstep] at hchecked
      rw [run]
      split <;> simp_all
  | case3 s t hstep ih =>
      have hchecked := step_eq h
      rw [hstep] at hchecked
      have hrest := ih ((Frame.step_inBounds h).of_eq_ok hstep)
      rw [run]
      split <;> simp_all

/-! ### Streams -/

/-- The number that `n` bytes of the stream write from a position on. -/
def littleEndian (data : Array UInt8) : Nat → Nat → Except Breach Nat
  | 0, _ => .ok 0
  | n + 1, position => do
    let byte ← read data position
    let rest ← littleEndian data n (position + 1)
    return byte.toNat + 256 * rest

/-- Reads the header at the start of a stream. -/
def header (data : Array UInt8) : Except Breach (Except Error Header) :=
  if data.size = 0 then
    return .error .inputTooShort
  else do
    let flags ← read data 0
    let width := if flags.toNat / 2 % 2 = 1 then 4 else 1
    if data.size < 1 + 2 * width then
      return .error .invalidHeader
    else do
      let streamSize ← littleEndian data width 1
      let dataSize ← littleEndian data width (1 + width)
      return .ok {
        length := 1 + 2 * width
        streamSize := streamSize
        dataSize := dataSize
        level := flags.toNat / 4 % 4
        compressed := flags.toNat % 2 = 1 }

/-- The data of a compressed stream, decoded without a look at its sizes. -/
def decodeBody (h : Header) (level : Level) (data : List UInt8) :
    Except Breach (Except Error (List UInt8)) := do
  match ← run (h.frame level data) ((h.frame level data).start h.length) with
  | .ok _ s => return .ok s.output.toList
  | .error fault _ => return .error (.quickLz fault)

/-- The data in a stream. -/
def decompress (data : List UInt8) : Except Breach (Except Error (List UInt8)) := do
  match ← header data.toArray with
  | .error e => return .error e
  | .ok h =>
    match Level.ofNat? h.level with
    | none => return .error (.unsupportedLevel h.level)
    | some level =>
      if data.length < h.streamSize then return .error .inputTooShort
      else if !h.compressed then return stored h data
      else if !h.fits data then return .error .invalidHeader
      else decodeBody h level data

theorem littleEndian_eq {data : List UInt8} {n position : Nat} (h : position + n ≤ data.length) :
    littleEndian data.toArray n position =
      .ok (Codec.littleEndian ((data.drop position).take n)) := by
  induction n generalizing position with
  | zero => rfl
  | succ n ih =>
      have hposition : position < data.length := by omega
      have hbyte : read data.toArray position = .ok data[position] := dif_pos hposition
      rw [List.drop_eq_getElem_cons hposition, List.take_succ_cons, Codec.littleEndian]
      exact bind_eq_ok hbyte (bind_eq_ok (ih (by omega)) rfl)

theorem header_eq (data : List UInt8) : header data.toArray = .ok (Header.read data) := by
  cases data with
  | nil => rfl
  | cons flags rest =>
      have hflags : read (flags :: rest).toArray 0 = .ok flags := dif_pos (Nat.succ_pos _)
      rw [header, if_neg (by simp)]
      refine bind_eq_ok hflags ?_
      dsimp only [Header.read]
      generalize (if flags.toNat / 2 % 2 = 1 then 4 else 1) = width
      by_cases hshort : rest.length < 2 * width
      · rw [if_pos hshort, if_pos (by simp; omega)]
        rfl
      · have hroom : 1 + 2 * width ≤ (flags :: rest).length := by
          rw [List.length_cons]
          omega
        rw [if_neg hshort, if_neg (by simp; omega)]
        refine bind_eq_ok (littleEndian_eq (by omega)) ?_
        refine bind_eq_ok (littleEndian_eq (by omega)) ?_
        simp only [Nat.add_comm 1 width, List.drop_succ_cons, List.drop_zero]
        rfl

theorem decodeBody_eq (h : Header) (level : Level) (data : List UInt8) :
    decodeBody h level data = .ok (QuickLz.decodeBody h level data) := by
  refine bind_eq_ok (run_eq (.start _ _)) ?_
  dsimp only [QuickLz.decodeBody]
  generalize Frame.run _ _ = result
  cases result <;> rfl

/-- On every stream the answer is the same, and there is no breach on the way to it. -/
theorem decompress_eq (data : List UInt8) :
    decompress data = .ok (QuickLz.decompress data) := by
  refine bind_eq_ok (header_eq data) ?_
  unfold QuickLz.decompress
  cases Header.read data with
  | error e => rfl
  | ok h =>
      dsimp only
      cases Level.ofNat? h.level with
      | none => rfl
      | some level =>
          dsimp only
          split
          · rfl
          · split
            · rfl
            · split
              · rfl
              · exact decodeBody_eq h level data

end Checked

end ResolverRecovery.Codec.QuickLz

import MarketData.Engine.Backends
import MarketData.Engine.Calls
import MarketData.Engine.FailedLoad

/-!
# The sizes of the tensors

What `initializeExecution` makes of the shapes it reads. The volume of a shape is checked for
overflow, but the number of its bytes is not.
-/

namespace MarketData

open ByteText Cpp StateProgram

namespace TensorRT

/-! ### Volumes -/

/-- The product of the extents, as natural numbers. -/
def volume (dims : List Int64) : ℕ := (dims.map Int64.toNatClampNeg).prod

private theorem toNat_toUInt64 {d : Int64} (h : 0 < d) :
    d.toUInt64.toNat = d.toNatClampNeg ∧ 0 < d.toNatClampNeg := by
  have hpos : 0 < d.toInt := Int64.lt_iff_toInt_lt.mp h
  exact ⟨Int64.toNat_toUInt64_of_le (Int64.le_of_lt h), Int.pos_iff_toNat_pos.mp hpos⟩

private theorem volume_cons (d : Int64) (dims : List Int64) :
    volume (d :: dims) = d.toNatClampNeg * volume dims := by
  rw [volume, List.map_cons, List.prod_cons, ← volume]

/-- Positive extents have a positive volume. -/
theorem volume_pos {dims : List Int64} (h : ∀ d ∈ dims, 0 < d) : 0 < volume dims := by
  induction dims with
  | nil => exact Nat.one_pos
  | cons d dims ih =>
    obtain ⟨hd, hdims⟩ := List.forall_mem_cons.mp h
    rw [volume_cons]
    exact Nat.mul_pos (toNat_toUInt64 hd).2 (ih hdims)

-- The loop ends with the product, unless an extent is not positive or a product on the way
-- overflows. As no extent is zero, the last product is the largest.
private theorem checkedProduct_eq_some {dims : List Int64} {r v : UInt64} (hr : 0 < r.toNat) :
    checkedProduct r dims = some v ↔ (∀ d ∈ dims, 0 < d) ∧ r.toNat * volume dims = v.toNat := by
  induction dims generalizing r with
  | nil => simp [checkedProduct, volume, UInt64.toNat_inj]
  | cons d dims ih =>
    rw [checkedProduct, List.forall_mem_cons, volume_cons, ← mul_assoc]
    by_cases hd : d ≤ 0
    · rw [if_pos hd]
      exact iff_of_false nofun fun h ↦ absurd h.1.1 (Int64.not_lt.mpr hd)
    have hpos : 0 < d := Int64.not_le.mp hd
    obtain ⟨hnat, hnatpos⟩ := toNat_toUInt64 hpos
    rw [← hnat] at hnatpos ⊢
    rw [if_neg hd]
    by_cases hover : 2 ^ 64 ≤ r.toNat * d.toUInt64.toNat
    · rw [if_pos ((product_overflows_iff hnatpos).mpr hover)]
      refine iff_of_false nofun fun h ↦ ?_
      have hle : r.toNat * d.toUInt64.toNat ≤ v.toNat := by
        rw [← h.2]
        exact Nat.le_mul_of_pos_right _ (volume_pos h.1.2)
      exact absurd (hover.trans hle) (Nat.not_le.mpr v.toNat_lt)
    · have hproduct : (r * d.toUInt64).toNat = r.toNat * d.toUInt64.toNat := by
        rw [UInt64.toNat_mul, Nat.mod_eq_of_lt (Nat.not_le.mp hover)]
      rw [if_neg fun h ↦ hover ((product_overflows_iff hnatpos).mp h),
        ih (by rw [hproduct]; exact Nat.mul_pos hr hnatpos), hproduct]
      simp [hpos]

/-- A shape is accepted exactly when it has extents, all of them positive, and its volume is a
`size_t`. -/
theorem checkedVolume_eq_some {dims : List Int64} {v : UInt64} :
    checkedVolume dims = some v ↔ dims ≠ [] ∧ (∀ d ∈ dims, 0 < d) ∧ volume dims = v.toNat := by
  rw [checkedVolume]
  split
  · next h => simp_all
  · next h =>
    rw [checkedProduct_eq_some (by decide), UInt64.toNat_one, one_mul]
    simp_all

/-- The loop of `checked_volume` with the factors of the products it forms. -/
def recordedProduct (result : UInt64) : List Int64 → List (UInt64 × UInt64) × Option UInt64
  | [] => ([], some result)
  | d :: dims =>
    if d ≤ 0 then ([], none)
    else if result > UInt64.ofNat (2 ^ 64 - 1) / d.toUInt64 then ([], none)
    else
      let rest := recordedProduct (result * d.toUInt64) dims
      ((result, d.toUInt64) :: rest.1, rest.2)

/-- `checked_volume` with the factors of the products that it forms. -/
def recordedVolume (dims : List Int64) : List (UInt64 × UInt64) × Option UInt64 :=
  if dims.isEmpty then ([], none) else recordedProduct 1 dims

/-- Recording does not change what the loop computes. -/
theorem recordedProduct_snd (r : UInt64) (dims : List Int64) :
    (recordedProduct r dims).2 = checkedProduct r dims := by
  induction dims generalizing r with
  | nil => rfl
  | cons d dims ih =>
    rw [recordedProduct, checkedProduct]
    by_cases hd : d ≤ 0
    · rw [if_pos hd, if_pos hd]
    rw [if_neg hd, if_neg hd]
    by_cases hover : r > UInt64.ofNat (2 ^ 64 - 1) / d.toUInt64
    · rw [if_pos hover, if_pos hover]
    · rw [if_neg hover, if_neg hover]
      exact ih (r * d.toUInt64)

/-- The guard before a product keeps it below `2 ^ 64`. -/
theorem recordedProduct_bounded (r : UInt64) (dims : List Int64) :
    ∀ factors ∈ (recordedProduct r dims).1, factors.1.toNat * factors.2.toNat < 2 ^ 64 := by
  induction dims generalizing r with
  | nil => exact fun _ h ↦ absurd h List.not_mem_nil
  | cons d dims ih =>
    rw [recordedProduct]
    by_cases hd : d ≤ 0
    · rw [if_pos hd]
      exact fun _ h ↦ absurd h List.not_mem_nil
    rw [if_neg hd]
    by_cases hover : r > UInt64.ofNat (2 ^ 64 - 1) / d.toUInt64
    · rw [if_pos hover]
      exact fun _ h ↦ absurd h List.not_mem_nil
    rw [if_neg hover]
    obtain ⟨hnat, hpos⟩ := toNat_toUInt64 (Int64.not_le.mp hd)
    intro factors hmem
    rcases List.mem_cons.mp hmem with rfl | hmem
    · exact Nat.not_le.mp fun hle ↦ hover ((product_overflows_iff (hnat ▸ hpos)).mpr hle)
    · exact ih (r * d.toUInt64) factors hmem

/-- The volume is the product of the extents exactly when there are extents, all of them are
positive and the product is a `size_t`; no product on the way wraps. -/
theorem checked_volume_exact (dims : List Int64) :
    (checkedVolume dims).map UInt64.toNat =
        (if dims ≠ [] ∧ (∀ d ∈ dims, 0 < d) ∧ volume dims ≤ 2 ^ 64 - 1 then some (volume dims)
          else none) ∧
      (recordedVolume dims).2 = checkedVolume dims ∧
      ∀ factors ∈ (recordedVolume dims).1, factors.1.toNat * factors.2.toNat < 2 ^ 64 := by
  refine ⟨?_, ?_, ?_⟩
  · split
    · next h =>
      obtain ⟨hne, hpos, hle⟩ := h
      have hlt : volume dims < 2 ^ 64 := Nat.lt_of_le_pred (by decide) hle
      have hnat : (UInt64.ofNat (volume dims)).toNat = volume dims := by
        rw [UInt64.toNat_ofNat', Nat.mod_eq_of_lt hlt]
      rw [checkedVolume_eq_some.mpr ⟨hne, hpos, hnat.symm⟩, Option.map_some, hnat]
    · next h =>
      rw [Option.map_eq_none_iff, Option.eq_none_iff_forall_ne_some]
      intro v hv
      obtain ⟨hne, hpos, hvolume⟩ := checkedVolume_eq_some.mp hv
      exact h ⟨hne, hpos, hvolume ▸ Nat.le_pred_of_lt v.toNat_lt⟩
  · rw [recordedVolume, checkedVolume]
    split
    · rfl
    · exact recordedProduct_snd 1 dims
  · rw [recordedVolume]
    split
    · exact fun _ h ↦ absurd h List.not_mem_nil
    · exact recordedProduct_bounded 1 dims

/-! ### What leaves the sizes -/

section

variable {libraries : Libraries} {P : Members → Prop}

/-- The members have a property. -/
abbrev On (P : Members → Prop) (s : Machine) : Prop := P s.toMembers

/-- A call keeps what holds of the members. -/
theorem invoke_on {α : Type} {op : Operation} {ids : List (Option ℕ)} {answer : ℕ → α} :
    Keeps (On P) (invoke op ids answer) :=
  fun _ hs ↦ hs

/-- A call that creates an object keeps what holds of the members. -/
theorem tryCreate_on {op : Operation} {ids : List (Option ℕ)} {what : Resource} :
    Keeps (On P) (tryCreate libraries op ids what) := by
  refine Ensures.bind invoke_on fun ok ↦ ?_
  exact Ensures.ite (fun _ _ hs ↦ hs) fun _ _ hs ↦ hs

/-- An object for a slot keeps what holds of the members whatever the slot has. -/
theorem createInto_on {slot : Slot} {op : Operation} {ids : List (Option ℕ)} {what : Resource}
    (hP : ∀ m h, P m → P (m.set slot h)) :
    Keeps (On P) (createInto libraries slot op ids what) := by
  refine Ensures.bind tryCreate_on fun h ↦ ?_
  exact Ensures.bind (Ensures.modify fun s hs ↦ hP s.toMembers h hs) fun _ _ hs ↦ hs

/-- The chain of creations keeps what does not depend on the handles. -/
theorem createExecution_on (hP : ∀ m slot h, P m → P (m.set slot h)) :
    Keeps (On P) (createExecution libraries) := by
  have hstay : ∀ s, On P s → On P s := fun _ hs ↦ hs
  have hcreate : ∀ slot op ids what, Keeps (On P) (createInto libraries slot op ids what) :=
    fun slot _ _ _ ↦ createInto_on fun m h ↦ hP m slot h
  refine Ensures.get_any fun s ↦ ?_
  refine Keeps.orReturn (hcreate _ _ _ _) hstay ?_
  refine Keeps.orReturn (hcreate _ _ _ _) hstay ?_
  refine Keeps.orReturn (hcreate _ _ _ _) hstay ?_
  refine Keeps.orReturn (hcreate _ _ _ _) hstay ?_
  refine Keeps.orReturn (hcreate _ _ _ _) hstay ?_
  refine Keeps.orReturn (hcreate _ _ _ _) hstay ?_
  exact Keeps.orReturn (hcreate _ _ _ _) hstay (hcreate _ _ _ _)

/-- Binding the tensors keeps what holds of the members. -/
theorem bindTensors_on : Keeps (On P) (bindTensors libraries) := by
  refine Ensures.get_any fun s ↦ ?_
  exact Keeps.orReturn invoke_on (fun _ hs ↦ hs) invoke_on

private theorem readDevice_on (metadata : RuntimeMetadata) :
    Keeps (On P) (readDevice libraries metadata) := by
  refine Keeps.orReturn invoke_on (fun _ hs ↦ hs) ?_
  refine Ensures.get_any fun s ↦ ?_
  exact Keeps.orReturn invoke_on (fun _ hs ↦ hs) fun _ hs ↦ hs

/-- The metadata are read into their own member. -/
theorem readMetadata_on (hP : ∀ m metadata, P m → P { m with runtimeMetadata := metadata }) :
    Keeps (On P) (readMetadata libraries) := by
  refine Ensures.get_any fun s ↦ ?_
  refine Ensures.bind invoke_on fun _ ↦ Ensures.bind invoke_on fun _ ↦ ?_
  exact Ensures.bind (readDevice_on _) fun metadata ↦ Ensures.modify fun m hm ↦ hP _ metadata hm

end

/-! ### Shapes -/

section

variable (libraries : Libraries) (s : Machine)

/-- The machine behind the loop over the tensors. -/
def tensorsNamed : Machine :=
  let counted := (invoke .getNbIOTensors [s.handle .engine] libraries.tensorCount).run s
  ((nameTensors libraries counted.1.toNat).run counted.2).2

/-- The shape that `initializeExecution` reads for the input: the answer behind the names and the
two data types. -/
def inputShape : List Int64 := libraries.tensorShape ((tensorsNamed libraries s).answered + 2)

/-- The shape that `initializeExecution` reads for the output. -/
def outputShape : List Int64 := libraries.tensorShape ((tensorsNamed libraries s).answered + 3)

end

/-- The sizes are four bytes for each element of the shapes, as machine words. -/
structure Members.Shaped (input output : List Int64) (m : Members) : Prop where
  input : ∃ v, checkedVolume input = some v ∧ m.inputBytes = v * 4
  output : ∃ v, checkedVolume output = some v ∧ m.outputBytes = v * 4

variable {libraries : Libraries}

private theorem invoke_answer {α : Type} {op : Operation} {ids : List (Option ℕ)} {answer : ℕ → α}
    (n : ℕ) : Ensures (fun t ↦ t.answered = n) (invoke op ids answer)
      fun a t ↦ a = answer n ∧ t.answered = n + 1 := by
  rintro t rfl
  exact ⟨rfl, rfl⟩

/-- The sizes that a load reads are those of the two shapes. -/
theorem readTensors_shaped (s : Machine) (h : ((readTensors libraries).run s).1 = true) :
    ((readTensors libraries).run s).2.Shaped (inputShape libraries s)
      (outputShape libraries s) := by
  suffices Ensures (fun t ↦ t = s) (readTensors libraries) fun ok t ↦
      ok = true → t.Shaped (inputShape libraries s) (outputShape libraries s) from this s rfl h
  let P : Bool → Machine → Prop := fun ok t ↦
    ok = true → t.Shaped (inputShape libraries s) (outputShape libraries s)
  have hfalse : ∀ t, P false t := fun _ h ↦ nomatch h
  let n := (tensorsNamed libraries s).answered
  refine Ensures.get fun t ↦ ?_
  refine Ensures.bind (R := fun count t ↦ (count, t) =
    (invoke .getNbIOTensors [s.handle .engine] libraries.tensorCount).run s) ?_ fun count ↦ ?_
  · rintro _ ⟨rfl, rfl⟩
    rfl
  refine Ensures.orReturn (R := fun t ↦ t.answered = n) ?_ ?_
  · intro t ht
    obtain ⟨rfl, rfl⟩ := Prod.mk.inj ht
    split
    · rfl
    · exact hfalse _
  refine Ensures.get_any fun _ ↦ Ensures.ite (fun _ t _ ↦ hfalse t) fun _ ↦ ?_
  have hnext : ∀ k op ids (answer : ℕ → Bool), Ensures (fun t ↦ t.answered = k)
      (invoke op ids answer) fun ok t ↦ if ok then t.answered = k + 1 else P false t := by
    refine fun k op ids answer ↦ (invoke_answer k).weaken fun ok t ht ↦ ?_
    cases ok with
    | false => exact hfalse t
    | true => exact ht.2
  refine .orReturn (hnext n _ _ _) (.orReturn (hnext (n + 1) _ _ _) ?_)
  refine Ensures.bind (invoke_answer (n + 2)) fun input ↦ Ensures.of_prop fun hinput ↦ ?_
  refine Ensures.bind (invoke_answer (n + 3)) fun output ↦ Ensures.of_prop fun houtput ↦ ?_
  cases hv : checkedVolume input with
  | none => exact fun t _ ↦ hfalse t
  | some v =>
    cases hw : checkedVolume output with
    | none => exact fun t _ ↦ hfalse t
    | some w =>
      subst hinput houtput
      exact fun t _ _ ↦ ⟨⟨v, hv, rfl⟩, ⟨w, hw, rfl⟩⟩

/-- A positive answer of `initializeExecution` comes with the sizes of the shapes it has read. -/
theorem initializeExecution_shaped (s : Machine)
    (h : ((initializeExecution libraries).run s).1 = true) :
    ((initializeExecution libraries).run s).2.Shaped (inputShape libraries s)
      (outputShape libraries s) := by
  suffices Ensures (fun t ↦ t = s) (initializeExecution libraries) fun ok t ↦
      ok = true → t.Shaped (inputShape libraries s) (outputShape libraries s) from this s rfl h
  let P : Machine → Prop := On (Members.Shaped (inputShape libraries s) (outputShape libraries s))
  have hfalse : ∀ t, false = true → P t := fun _ h ↦ nomatch h
  refine Ensures.get_any fun _ ↦ Ensures.ite (fun _ t _ ↦ hfalse t) fun _ ↦ ?_
  refine Ensures.orReturn (R := P) ?_ ?_
  · rintro _ rfl
    split
    · next hok => exact readTensors_shaped _ hok
    · exact hfalse _
  refine Keeps.orReturn (createExecution_on fun m _ _ hm ↦ ⟨hm.input, hm.output⟩)
    (fun t _ ↦ hfalse t) ?_
  refine Keeps.orReturn bindTensors_on (fun t _ ↦ hfalse t) ?_
  refine Ensures.bind (R := fun _ ↦ P) (readMetadata_on fun m _ hm ↦ ⟨hm.input, hm.output⟩) ?_
  exact fun _ ↦ Ensures.pure fun _ ht _ ↦ ht

end TensorRT

/-! ### Exact sizes -/

open TensorRT

/-- The sizes and the element counts of the engine are those of the shapes, and a run with at least
one iteration passes its checks exactly when its element count is the input volume. -/
structure ExactSizes (libraries : Libraries) (input output : List Int64) (s : Machine) : Prop where
  inputBytes : s.inputBytes.toNat = 4 * volume input
  outputBytes : s.outputBytes.toNat = 4 * volume output
  inputElements : (Backend.tensorRT s).inputElementsPerBatch.toNat = volume input
  outputElements : (Backend.tensorRT s).outputElementsPerBatch.toNat = volume output
  checked : ∀ options : RunOptions, options.iterations ≠ 0 →
    (checkRun (Backend.asEngine libraries) options (.tensorRT s) = .ok () ↔
      elementCount options = volume input)

private theorem bytes_eq_iff {v : UInt64} : (v * 4).toNat = 4 * v.toNat ↔ v.toNat < 2 ^ 62 := by
  have hfour : (4 : UInt64).toNat = 4 := rfl
  have hlt := v.toNat_lt
  rw [UInt64.toNat_mul, hfour]
  omega

private theorem elements_eq {v bytes : UInt64} (h : bytes.toNat = 4 * v.toNat) :
    (bytes / 4).toNat = v.toNat := by
  have hfour : (4 : UInt64).toNat = 4 := rfl
  rw [UInt64.toNat_div, h, hfour, Nat.mul_div_cancel_left _ (by decide)]

private theorem checkRun_iff {libraries : Libraries} {s : Machine} {options : RunOptions} {n : ℕ}
    (hiterations : options.iterations ≠ 0) (hn : 0 < n)
    (h : (Backend.tensorRT s).inputElementsPerBatch.toNat = n) :
    checkRun (Backend.asEngine libraries) options (.tensorRT s) = .ok () ↔
      elementCount options = n := by
  have hcapacity : (Backend.asEngine libraries).inputElementsPerBatch (.tensorRT s) =
      (Backend.tensorRT s).inputElementsPerBatch := rfl
  have hne : (Backend.tensorRT s).inputElementsPerBatch ≠ 0 := by
    intro hzero
    rw [hzero] at h
    exact hn.ne h
  have hlt := (Backend.tensorRT s).inputElementsPerBatch.toNat_lt
  rw [checkRun_eq_ok, Rejected, hcapacity, h]
  constructor
  · intro hrun
    by_contra hother
    exact hrun (.inr (.inr ⟨hne, Ne.symm hother⟩))
  · rintro rfl (hzero | hover | ⟨-, hother⟩)
    · rcases hzero with hzero | hzero | hzero
      · simp [elementCount, hzero] at hn
      · simp [elementCount, hzero] at hn
      · exact hiterations hzero
    · omega
    · exact hother rfl

/-- What `initializeExecution` accepts has exact sizes when both volumes are below `2 ^ 62`, and
otherwise one of its sizes has wrapped. -/
theorem exact_sizes_iff {libraries : Libraries} {s : Machine}
    (h : ((initializeExecution libraries).run s).1 = true) :
    ExactSizes libraries (inputShape libraries s) (outputShape libraries s)
        ((initializeExecution libraries).run s).2 ↔
      volume (inputShape libraries s) < 2 ^ 62 ∧ volume (outputShape libraries s) < 2 ^ 62 := by
  obtain ⟨⟨v, hv, hinput⟩, ⟨w, hw, houtput⟩⟩ := initializeExecution_shaped s h
  obtain ⟨-, hpos, hvolume⟩ := checkedVolume_eq_some.mp hv
  obtain ⟨-, -, hvolume'⟩ := checkedVolume_eq_some.mp hw
  have hone : 0 < v.toNat := hvolume ▸ volume_pos hpos
  rw [hvolume, hvolume']
  constructor
  · intro hexact
    have hin := hexact.inputBytes
    have hout := hexact.outputBytes
    rw [hinput, hvolume] at hin
    rw [houtput, hvolume'] at hout
    exact ⟨bytes_eq_iff.mp hin, bytes_eq_iff.mp hout⟩
  · rintro ⟨hlt, hlt'⟩
    have hin := bytes_eq_iff.mpr hlt
    have hout := bytes_eq_iff.mpr hlt'
    rw [← hinput] at hin
    rw [← houtput] at hout
    have helements : (Backend.tensorRT
        ((initializeExecution libraries).run s).2).inputElementsPerBatch.toNat = v.toNat :=
      elements_eq hin
    refine ⟨by rw [hin, hvolume], by rw [hout, hvolume'], by rw [helements, hvolume],
      (elements_eq hout).trans hvolume'.symm, fun options hiterations ↦ ?_⟩
    rw [checkRun_iff hiterations hone helements, hvolume]

/-! ### Two shapes -/

/-- Libraries whose tensors all have one shape. -/
def shapedAs (shape : List Int64) : Libraries := { failingAt 64 with tensorShape := fun _ ↦ shape }

/-- An engine behind the deserialization of its plan. -/
def deserialized : Machine where
  handle := Function.update (fun _ ↦ none) .engine (some 0)
  answered := 3
  next := 1

/-- A shape of three dimensions has exact sizes: its twelve elements take 48 bytes. -/
theorem exact_sizes_several :
    ExactSizes (shapedAs [2, 3, 2]) [2, 3, 2] [2, 3, 2]
        ((initializeExecution (shapedAs [2, 3, 2])).run deserialized).2 ∧
      ((initializeExecution (shapedAs [2, 3, 2])).run deserialized).2.inputBytes = 48 :=
  ⟨(exact_sizes_iff (by decide +kernel)).mpr (by decide +kernel), by decide +kernel⟩

/-- A shape whose bytes wrap is accepted, and leaves an engine of one element. -/
theorem wrapped_sizes :
    ((initializeExecution (shapedAs [2 ^ 62 + 1])).run deserialized).1 = true ∧
      inputShape (shapedAs [2 ^ 62 + 1]) deserialized = [2 ^ 62 + 1] ∧
      outputShape (shapedAs [2 ^ 62 + 1]) deserialized = [2 ^ 62 + 1] ∧
      ((initializeExecution (shapedAs [2 ^ 62 + 1])).run deserialized).2.inputBytes = 4 ∧
      ¬ ExactSizes (shapedAs [2 ^ 62 + 1]) [2 ^ 62 + 1] [2 ^ 62 + 1]
        ((initializeExecution (shapedAs [2 ^ 62 + 1])).run deserialized).2 := by
  have hbytes : ((initializeExecution (shapedAs [2 ^ 62 + 1])).run deserialized).2.inputBytes = 4 :=
    by decide +kernel
  refine ⟨by decide +kernel, rfl, rfl, hbytes, fun h ↦ ?_⟩
  have hinput := h.inputBytes
  rw [hbytes] at hinput
  exact absurd hinput (by decide +kernel)

end MarketData

import LayerSkip.ModelLayout

/-!
# The converter and the loader agree on a model file

The converter finds the tensors of its plan in the files of a checkpoint, of which it knows the
names once it has loaded them. The loader takes as many bytes for each operation as its sizes say.
They agree when words count the values of each tensor, when the feed-forward blocks have the size of
the architecture, and when the converter has loaded the file of the logits before it looks for them.
-/

namespace LayerSkip.ModelFileAgreement

open NnTopology NnPipeline NnCore LlmGraph KeyValueHeader ModelFile WeightLoader ModelLayout

variable {Value : Type}

/-- A checkpoint with the extents of a configuration, which are not zero where every model has some.
Each name is in one file. -/
structure Checkpoint (c : Config) (files : List (SafetensorsFile Value)) : Prop where
  /-- Values of a row. -/
  dim_pos : 0 < c.dim
  /-- Tokens. -/
  vocab_pos : 0 < c.vocabSize
  /-- Values of a head. -/
  headSize_pos : 0 < c.headSize
  /-- A name is in one file. -/
  once : ∀ {i j : ℕ} {file other : SafetensorsFile Value} {name : String}, files[i]? = some file →
    files[j]? = some other → (file name).isSome → (other name).isSome → i = j
  /-- Tensors have the extents of the configuration. -/
  shapes : ∀ e ∈ layout c, ∀ name ∈ e.names, ∀ file ∈ files, ∀ t, file name = some t →
    t.shape = e.shape (mlpSize c)

/-- The first of some names that the checkpoint has. -/
def firstName (files : List (SafetensorsFile Value)) (names : List String) : Option String :=
  names.find? fun name => files.any fun file => (file name).isSome

/-- The tensor of the file is one of the layout, taken from the checkpoint under a name of it. -/
structure Wrote (numbers : Numbers Value) (c : Config) (files : List (SafetensorsFile Value))
    (item : PlanItem) (w : Written) : Prop where
  /-- A name of the entry. -/
  name : w.layerName ∈ item.lookup
  /-- Its format. -/
  floatType : w.floatType = item.floatType
  /-- Its values. -/
  bytes : ∃ file ∈ files, ∃ t t', file w.layerName = some t ∧
    applyTransform c t item.transform = .ok t' ∧
    writeTensor numbers t' item.floatType = .ok w.bytes

section Bytes

variable {numbers : Numbers Value}

theorem flatten_chunks (chunkSize count k : ℕ) :
    ((List.range k).map fun i => ((List.range count).drop (i * chunkSize)).take chunkSize).flatten =
      (List.range count).take (k * chunkSize) := by
  induction k with
  | zero => simp
  | succ k ih =>
    rw [List.range_succ, List.map_append, List.flatten_append, ih, Nat.succ_mul, List.take_add]
    simp

theorem length_flatMap_const {α : Type} {f : α → List UInt8} {size : ℕ}
    (h : ∀ a, (f a).length = size) (l : List α) : (l.flatMap f).length = size * l.length := by
  induction l with
  | nil => simp
  | cons a l ih =>
    rw [List.flatMap_cons, List.length_append, ih, h, List.length_cons, Nat.mul_succ, Nat.add_comm]

theorem length_flatMap_flatten {α : Type} {f : α → List UInt8} {size : ℕ}
    (h : ∀ a, (f a).length = size) (ls : List (List α)) :
    (ls.flatMap fun l => l.flatMap f).length = size * ls.flatten.length := by
  induction ls with
  | nil => simp
  | cons l ls ih =>
    rw [List.flatMap_cons, List.length_append, ih, length_flatMap_const h, List.flatten_cons,
      List.length_append, Nat.mul_add]

/-- Chunks are together all of the values. -/
theorem flatten_chunks_eq (count : ℕ) : (chunks 10000 count).flatten = List.range count := by
  rw [chunks, flatten_chunks]
  apply List.take_of_length_le
  rw [List.length_range]
  omega

theorem writeQuantizedTensor_ok {size : ℕ} {block : (ℕ → Value) → List.Vector UInt8 size}
    {t : Tensor Value} {bs : List UInt8} (h : writeQuantizedTensor block t = .ok bs) :
    t.numel % q80BlockSize = 0 ∧ bs.length = t.numel / q80BlockSize * size := by
  obtain ⟨_, hwhole, h⟩ := bind_eq_ok h
  injection h with h
  rw [← h, length_flatMap_const (fun group => List.Vector.toList_length _), List.length_range,
    Nat.mul_comm]
  exact ⟨require_eq_ok hwhole, Eq.refl _⟩

/-- A tensor is written in whole blocks, in as many bytes as its format takes. -/
theorem writeTensor_ok {t : Tensor Value} {floatType : NnFloatType} {bs : List UInt8}
    (h : writeTensor numbers t floatType = .ok bs) :
    WholeBlocks floatType t.numel ∧ bs.length = getBytes floatType t.numel := by
  cases floatType with
  | f32 =>
    injection h with h
    rw [← h, writeF32Tensor,
      length_flatMap_flatten (fun i => List.Vector.toList_length (numbers.f32 (t.data i))),
      flatten_chunks_eq, List.length_range]
    exact ⟨Nat.mod_one _, Eq.refl _⟩
  | f16 =>
    injection h with h
    rw [← h, writeF16Tensor,
      length_flatMap_const (fun i => List.Vector.toList_length (numbers.f16 (t.data i))),
      List.length_range]
    exact ⟨Nat.mod_one _, Eq.refl _⟩
  | q40 => exact writeQuantizedTensor_ok h
  | q80 => exact writeQuantizedTensor_ok h

/-- A transformation keeps the extents. -/
theorem applyTransform_shape {c : Config} {t t' : Tensor Value} {transform : Option Transform}
    (h : applyTransform c t transform = .ok t') : t'.shape = t.shape := by
  have hpermute : ∀ {a b : ℕ}, permute t a b = .ok t' → t'.shape = t.shape := by
    intro a b hp
    rw [permute] at hp
    cases hshape : t.shape with
    | nil =>
      rw [hshape] at hp
      cases hp
    | cons rows extents =>
      simp only [hshape] at hp
      obtain ⟨_, _, hp⟩ := bind_eq_ok hp
      obtain ⟨_, _, hp⟩ := bind_eq_ok hp
      injection hp with hp
      rw [← hp]
  rw [applyTransform.eq_def] at h
  cases transform with
  | none =>
    injection h with h
    rw [h]
  | some kind =>
    cases kind with
    | q =>
      simp only at h
      split at h
      · exact hpermute h
      · injection h with h
        rw [h]
    | k =>
      simp only at h
      split at h
      · exact hpermute h
      · injection h with h
        rw [h]

/-- Bytes and whole blocks tell the number of values. -/
theorem getBytes_inj {floatType : NnFloatType} {a b : ℕ} (ha : WholeBlocks floatType a)
    (hb : WholeBlocks floatType b) (h : getBytes floatType a = getBytes floatType b) : a = b := by
  cases floatType with
  | f32 | f16 | q40 | q80 =>
    simp only [WholeBlocks, getBlockSize, getBytes, q80BlockSize] at ha hb h
    omega

end Bytes

section Converter

variable {numbers : Numbers Value} {c : Config} {files : List (SafetensorsFile Value)}

/-- A file has a name that one of some entries looks for. -/
def Holds (file : SafetensorsFile Value) (done : List PlanItem) : Prop :=
  ∃ item ∈ done, ∃ name ∈ item.lookup, (file name).isSome

/-- The converter has loaded a file: the last one, or one with a tensor that it has written. -/
def Opened (files : List (SafetensorsFile Value)) (done : List PlanItem) (i : ℕ)
    (file : SafetensorsFile Value) : Prop :=
  files[i]? = some file ∧ (i + 1 = files.length ∨ Holds file done)

/-- What the converter knows after it has written some entries. -/
structure Learned (files : List (SafetensorsFile Value)) (done : List PlanItem) (p : Processor) :
    Prop where
  /-- It knows the names of the files that it has loaded. -/
  map : ∀ name i, p.layerMap name = some i ↔ ∃ file, Opened files done i file ∧ (file name).isSome
  /-- The file that is loaded has a tensor that was written. -/
  current : ∀ i, p.currentModelIndex = some i → ∃ file, files[i]? = some file ∧ Holds file done
  /-- A file is loaded once something was written. -/
  started : done ≠ [] → p.currentModelIndex ≠ none

theorem holds_append {file : SafetensorsFile Value} {done more : List PlanItem} :
    Holds file (done ++ more) ↔ Holds file done ∨ Holds file more := by
  constructor
  · intro h
    obtain ⟨item, hitem, name, hname, hsome⟩ := h
    rw [List.mem_append] at hitem
    cases hitem with
    | inl hdone => exact .inl ⟨item, hdone, name, hname, hsome⟩
    | inr hmore => exact .inr ⟨item, hmore, name, hname, hsome⟩
  · intro h
    cases h with
    | inl hdone =>
      obtain ⟨item, hitem, hrest⟩ := hdone
      exact ⟨item, List.mem_append_left _ hitem, hrest⟩
    | inr hmore =>
      obtain ⟨item, hitem, hrest⟩ := hmore
      exact ⟨item, List.mem_append_right _ hitem, hrest⟩

theorem holds_single {file : SafetensorsFile Value} {item : PlanItem} {name : String}
    (hitem : item.lookup = [name]) : Holds file [item] ↔ (file name).isSome := by
  constructor
  · intro h
    obtain ⟨other, hother, found, hfound, hsome⟩ := h
    rw [List.mem_singleton.mp hother, hitem] at hfound
    rwa [List.mem_singleton.mp hfound] at hsome
  · intro h
    refine ⟨item, List.mem_singleton_self item, name, ?_, h⟩
    rw [hitem]
    exact List.mem_singleton_self name

/-- What is written for an entry comes from the file in which the converter looks. -/
theorem writeItem_ok {p p' : Processor} {item : PlanItem} {w : Written}
    (h : writeItem numbers c files p item = .ok (p', w)) :
    ∃ file t t', loadModel files p (modelIndexOf p item) = .ok p' ∧
      files[modelIndexOf p item]? = some file ∧
      findTensor file item.lookup = some (w.layerName, t) ∧
      applyTransform c t item.transform = .ok t' ∧
      writeTensor numbers t' item.floatType = .ok w.bytes ∧ w.floatType = item.floatType := by
  obtain ⟨q, hq, h⟩ := bind_eq_ok h
  cases hfile : files[modelIndexOf p item]? with
  | none =>
    rw [hfile] at h
    cases h
  | some file =>
    rw [hfile] at h
    simp only [Option.bind_some] at h
    cases hfind : findTensor file item.lookup with
    | none =>
      rw [hfind] at h
      cases h
    | some found =>
      rw [hfind] at h
      obtain ⟨t', ht', h⟩ := bind_eq_ok h
      obtain ⟨bs, hbs, h⟩ := bind_eq_ok h
      injection h with h
      injection h with hp hw
      rw [← hp, ← hw]
      exact ⟨file, found.2, t', hq, Eq.refl _, hfind, ht', hbs, Eq.refl _⟩

theorem findTensor_mem {file : SafetensorsFile Value} {lookup : List String} {name : String}
    {t : Tensor Value} (h : findTensor file lookup = some (name, t)) :
    name ∈ lookup ∧ file name = some t := by
  obtain ⟨other, hother, hfound⟩ := List.exists_of_findSome?_eq_some h
  cases htensor : file other with
  | none =>
    rw [htensor] at hfound
    cases hfound
  | some tensor =>
    rw [htensor] at hfound
    injection hfound with hfound
    injection hfound with hname ht
    rw [← hname, ← ht]
    exact ⟨hother, htensor⟩

/-- An entry with one name is written under it, and the converter has learned the names of its
file. -/
theorem Learned.step (hc : Checkpoint c files) {done : List PlanItem} {p p' : Processor}
    {item : PlanItem} {w : Written} {name : String} (h : Learned files done p)
    (hitem : item.lookup = [name]) (hwrite : writeItem numbers c files p item = .ok (p', w)) :
    Learned files (done ++ [item]) p' := by
  obtain ⟨file, t, _, hload, hfile, hfind, _, _, _⟩ := writeItem_ok hwrite
  generalize modelIndexOf p item = index at hload hfile
  have hhas : (file name).isSome := by
    obtain ⟨hmem, htensor⟩ := findTensor_mem hfind
    rw [hitem, List.mem_singleton] at hmem
    rw [hmem] at htensor
    rw [htensor]
    exact Eq.refl _
  have hholds (other : SafetensorsFile Value) :
      Holds other (done ++ [item]) ↔ Holds other done ∨ (other name).isSome := by
    rw [holds_append, holds_single hitem]
  have hopened : Opened files (done ++ [item]) index file :=
    ⟨hfile, .inr ((hholds file).mpr (.inr hhas))⟩
  -- a file with the name is the file that was loaded
  have hsame {i : ℕ} {other : SafetensorsFile Value} (hother : files[i]? = some other)
      (hname : (other name).isSome) : i = index ∧ other = file := by
    have hindex := hc.once hother hfile hname hhas
    rw [hindex, hfile] at hother
    exact ⟨hindex, (Option.some.inj hother).symm⟩
  have hgrows {i : ℕ} {other : SafetensorsFile Value} :
      Opened files (done ++ [item]) i other ↔
        Opened files done i other ∨ i = index ∧ other = file := by
    constructor
    · intro hopen
      obtain ⟨hother, hlast | hthere⟩ := hopen
      · exact .inl ⟨hother, .inl hlast⟩
      · cases (hholds other).mp hthere with
        | inl hdone => exact .inl ⟨hother, .inr hdone⟩
        | inr hname => exact .inr (hsame hother hname)
    · intro hopen
      cases hopen with
      | inl hbefore =>
        obtain ⟨hother, hwhy⟩ := hbefore
        exact ⟨hother, hwhy.imp_right fun hdone => (hholds other).mpr (.inl hdone)⟩
      | inr hnow =>
        rw [hnow.1, hnow.2]
        exact hopened
  unfold loadModel at hload
  by_cases hcurrent : p.currentModelIndex = some index
  · rw [if_pos hcurrent] at hload
    injection hload with hload
    rw [← hload]
    obtain ⟨other, hother, hdone⟩ := h.current index hcurrent
    rw [hfile] at hother
    rw [← Option.some.inj hother] at hdone
    constructor
    · intro found i
      rw [h.map]
      constructor
      · intro hknown
        obtain ⟨other, hopen, hsome⟩ := hknown
        exact ⟨other, hgrows.mpr (.inl hopen), hsome⟩
      · intro hknown
        obtain ⟨other, hopen, hsome⟩ := hknown
        cases hgrows.mp hopen with
        | inl hbefore => exact ⟨other, hbefore, hsome⟩
        | inr hnow =>
          rw [hnow.1]
          rw [hnow.2] at hsome
          exact ⟨file, ⟨hfile, .inr hdone⟩, hsome⟩
    · intro i hi
      rw [hcurrent] at hi
      rw [← Option.some.inj hi]
      exact ⟨file, hfile, (hholds file).mpr (.inr hhas)⟩
    · intro _ hnone
      rw [hcurrent] at hnone
      cases hnone
  · rw [if_neg hcurrent, hfile] at hload
    injection hload with hload
    rw [← hload]
    constructor
    · intro found i
      by_cases hfound : (file found).isSome
      · simp only [hfound, if_true, Option.some.injEq]
        constructor
        · intro hindex
          rw [← hindex]
          exact ⟨file, hopened, hfound⟩
        · intro hknown
          obtain ⟨other, hopen, hsome⟩ := hknown
          exact (hc.once hopen.1 hfile hsome hfound).symm
      · simp only [hfound, Bool.false_eq_true, if_false]
        rw [h.map]
        constructor
        · intro hknown
          obtain ⟨other, hopen, hsome⟩ := hknown
          exact ⟨other, hgrows.mpr (.inl hopen), hsome⟩
        · intro hknown
          obtain ⟨other, hopen, hsome⟩ := hknown
          cases hgrows.mp hopen with
          | inl hbefore => exact ⟨other, hbefore, hsome⟩
          | inr hnow =>
            rw [hnow.2] at hsome
            exact absurd hsome hfound
    · intro i hi
      rw [← Option.some.inj hi]
      exact ⟨file, hfile, (hholds file).mpr (.inr hhas)⟩
    · intro _ hnone
      cases hnone

theorem writeItem_wrote {p p' : Processor} {item : PlanItem} {w : Written}
    (h : writeItem numbers c files p item = .ok (p', w)) : Wrote numbers c files item w := by
  obtain ⟨file, t, t', _, hfile, hfind, ht', hbytes, hfloat⟩ := writeItem_ok h
  obtain ⟨hname, htensor⟩ := findTensor_mem hfind
  exact ⟨hname, hfloat, file, List.mem_of_getElem? hfile, t, t', htensor, ht', hbytes⟩

/-- Entries with one name are written one after the other. -/
theorem Learned.run (hc : Checkpoint c files) {items done : List PlanItem} {p p' : Processor}
    {ws : List Written} (h : Learned files done p)
    (hitems : ∀ item ∈ items, ∃ name, item.lookup = [name])
    (hwrite : writeItems numbers c files p items = .ok (p', ws)) :
    Learned files (done ++ items) p' ∧ List.Forall₂ (Wrote numbers c files) items ws := by
  induction items generalizing done p ws with
  | nil =>
    injection hwrite with hwrite
    injection hwrite with hp hws
    rw [← hp, ← hws, List.append_nil]
    exact ⟨h, .nil⟩
  | cons item items ih =>
    obtain ⟨⟨q, w⟩, hfirst, hwrite⟩ := bind_eq_ok hwrite
    obtain ⟨⟨q', rest⟩, hrest, hwrite⟩ := bind_eq_ok hwrite
    injection hwrite with hwrite
    injection hwrite with hp hws
    rw [hp] at hrest
    obtain ⟨name, hname⟩ := hitems item List.mem_cons_self
    have hstep := h.step hc hname hfirst
    have hlater := ih hstep (fun other hother => hitems other (List.mem_cons_of_mem item hother))
      hrest
    rw [List.append_assoc] at hlater
    rw [← hws]
    exact ⟨hlater.1, .cons (writeItem_wrote hfirst) hlater.2⟩

theorem writeItems_append {p p' : Processor} {items : List PlanItem} {last : PlanItem}
    {ws : List Written} (h : writeItems numbers c files p (items ++ [last]) = .ok (p', ws)) :
    ∃ q body w, writeItems numbers c files p items = .ok (q, body) ∧
      writeItem numbers c files q last = .ok (p', w) ∧ ws = body ++ [w] := by
  induction items generalizing p ws with
  | nil =>
    obtain ⟨⟨q, w⟩, hlast, h⟩ := bind_eq_ok h
    injection h with h
    injection h with hp hws
    rw [← hp, ← hws]
    exact ⟨p, [], w, Eq.refl _, hlast, Eq.refl _⟩
  | cons item items ih =>
    obtain ⟨⟨q, w⟩, hfirst, h⟩ := bind_eq_ok h
    obtain ⟨⟨q', rest⟩, hrest, h⟩ := bind_eq_ok h
    injection h with h
    injection h with hp hws
    rw [hp] at hrest
    obtain ⟨r, body, last', hbody, hlast, heq⟩ := ih hrest
    refine ⟨r, w :: body, last', ?_, hlast, ?_⟩
    · rw [writeItems, hfirst]
      simp only [bind, Except.bind, hbody]
      exact Eq.refl _
    · rw [← hws, heq]
      exact Eq.refl _

/-- Entries before the last one have one name. -/
theorem lookup_of_mem_planBody {item : PlanItem} (h : item ∈ planBody c) :
    ∃ name, item.lookup = [name] := by
  have hmlp (wt : NnFloatType) (l : ℕ) : ∀ item ∈ planExperts wt l c.nExperts,
      ∃ name, item.lookup = [name] := by
    intro item hitem
    rw [planExperts, List.mem_cons, List.mem_flatMap] at hitem
    rcases hitem with hgate | ⟨expert, _, hexpert⟩
    · exact ⟨_, by rw [hgate]⟩
    · simp only [List.mem_cons, List.not_mem_nil, or_false] at hexpert
      rcases hexpert with he | he | he <;> exact ⟨_, by rw [he]⟩
  rw [planBody, List.mem_append, List.mem_append, List.mem_singleton, List.mem_singleton,
    List.mem_flatMap] at h
  rcases h with (hfirst | ⟨l, _, hlayer⟩) | hlast
  · exact ⟨_, by rw [hfirst]⟩
  · rw [planLayer, List.mem_append, List.mem_append, List.mem_append] at hlayer
    rcases hlayer with ((hattention | hblock) | hqk) | hnorms
    · simp only [List.mem_cons, List.not_mem_nil, or_false] at hattention
      rcases hattention with he | he | he | he <;> exact ⟨_, by rw [he]⟩
    · split at hblock
      · exact hmlp _ l item hblock
      · simp only [List.mem_cons, List.not_mem_nil, or_false] at hblock
        rcases hblock with he | he | he <;> exact ⟨_, by rw [he]⟩
    · split at hqk
      · simp only [List.mem_cons, List.not_mem_nil, or_false] at hqk
        rcases hqk with he | he <;> exact ⟨_, by rw [he]⟩
      · cases hqk
    · simp only [List.mem_cons, List.not_mem_nil, or_false] at hnorms
      rcases hnorms with he | he <;> exact ⟨_, by rw [he]⟩
  · exact ⟨_, by rw [hlast]⟩

/-- All entries are written. Before the logits the converter has learned the names of the files that
it has opened. -/
theorem write_ok (hc : Checkpoint c files) {written : List Written}
    (h : Processor.write numbers c files = .ok written) :
    ∃ p p' body w, Learned files (planBody c) p ∧
      List.Forall₂ (Wrote numbers c files) (planBody c) body ∧
      writeItem numbers c files p (planLogits c) = .ok (p', w) ∧ written = body ++ [w] := by
  obtain ⟨_, hsome, h⟩ := bind_eq_ok h
  obtain ⟨q, hload, h⟩ := bind_eq_ok h
  obtain ⟨⟨p', ws⟩, hwrite, h⟩ := bind_eq_ok h
  injection h with h
  have hne : files ≠ [] := require_eq_ok hsome
  have hpositive := List.length_pos_of_ne_nil hne
  have hstart : Learned files [] ⟨none, q.layerMap⟩ := by
    rw [loadModel, if_neg (by simp)] at hload
    have hlast : files[files.length - 1]? = some files[files.length - 1] :=
      List.getElem?_eq_getElem (by omega)
    rw [hlast] at hload
    injection hload with hload
    rw [← hload]
    have hnone (file : SafetensorsFile Value) : ¬Holds file [] := by
      intro hholds
      obtain ⟨item, hitem, _⟩ := hholds
      cases hitem
    constructor
    · intro name i
      constructor
      · intro hknown
        by_cases hhas : (files[files.length - 1] name).isSome
        · simp only [hhas, if_true, Option.some.injEq] at hknown
          rw [← hknown]
          exact ⟨_, ⟨hlast, .inl (by omega)⟩, hhas⟩
        · simp only [hhas, Bool.false_eq_true, if_false] at hknown
          cases hknown
      · intro hknown
        obtain ⟨file, ⟨hfile, hend | hholds⟩, hhas⟩ := hknown
        · have hindex : i = files.length - 1 := by omega
          rw [hindex, hlast] at hfile
          rw [← Option.some.inj hfile] at hhas
          simp only [hhas, if_true, hindex]
        · exact absurd hholds (hnone file)
    · intro i hi
      cases hi
    · intro hdone
      exact absurd (Eq.refl _) hdone
  rw [preparePlan] at hwrite
  obtain ⟨p, body, w, hbody, hlogits, hws⟩ := writeItems_append hwrite
  obtain ⟨hlearned, hwrote⟩ := hstart.run hc (fun item hitem => lookup_of_mem_planBody hitem) hbody
  rw [List.nil_append] at hlearned
  exact ⟨p, p', body, w, hlearned, hwrote, hlogits, h.symm.trans hws⟩

/-- The file of the logits is the last one, or has another tensor that is written. -/
def LogitsKnown (c : Config) (files : List (SafetensorsFile Value)) : Prop :=
  ∀ i file, files[i]? = some file → (file "lm_head.weight").isSome →
    i + 1 = files.length ∨ Holds file (planBody c)

/-- A name that one file has is the first of two that are looked for. -/
theorem firstName_first {first second : String} {i : ℕ} {file : SafetensorsFile Value}
    (hfile : files[i]? = some file) (hhas : (file first).isSome) :
    firstName files [first, second] = some first := by
  have hany : files.any (fun file => (file first).isSome) = true :=
    List.any_eq_true.mpr ⟨file, List.mem_of_getElem? hfile, hhas⟩
  rw [firstName, List.find?_cons, hany]

/-- The second name is taken when no file has the first one. -/
theorem firstName_second {first second : String} {i : ℕ} {file : SafetensorsFile Value}
    (hne : first ≠ second) (hfile : files[i]? = some file) (hhas : (file second).isSome) :
    firstName files [first, second] = some second ↔ ∀ other ∈ files, ¬(other first).isSome := by
  have hany : files.any (fun file => (file second).isSome) = true :=
    List.any_eq_true.mpr ⟨file, List.mem_of_getElem? hfile, hhas⟩
  rw [firstName, List.find?_cons]
  cases hfirst : files.any fun file => (file first).isSome with
  | true =>
    constructor
    · intro heq
      exact absurd (Option.some.inj heq) hne
    · intro hnone
      obtain ⟨other, hother, hsome⟩ := List.any_eq_true.mp hfirst
      exact absurd hsome (hnone other hother)
  | false =>
    simp only [List.find?_cons, hany]
    constructor
    · intro _ other hother hsome
      have hsame : files.any (fun file => (file first).isSome) = true :=
        List.any_eq_true.mpr ⟨other, hother, hsome⟩
      rw [hfirst] at hsame
      cases hsame
    · intro _
      trivial

/-- The logits are written from the right tensor exactly when their file is known by then. -/
theorem logits_name_iff (hc : Checkpoint c files) {p p' : Processor} {w : Written}
    (h : Learned files (planBody c) p) {place : ℕ} {home : SafetensorsFile Value}
    (hhome : files[place]? = some home) (hembed : (home "model.embed_tokens.weight").isSome)
    (hwrite : writeItem numbers c files p (planLogits c) = .ok (p', w)) :
    firstName files (planLogits c).lookup = some w.layerName ↔ LogitsKnown c files := by
  obtain ⟨file, t, _, _, hfile, hfind, _, _, _⟩ := writeItem_ok hwrite
  have hholds : Holds home (planBody c) := by
    have hmem : (⟨.f32, none, ["model.embed_tokens.weight"]⟩ : PlanItem) ∈ planBody c := by
      rw [planBody]
      exact List.mem_cons_self
    exact ⟨_, hmem, _, List.mem_singleton_self _, hembed⟩
  have hopen : Opened files (planBody c) place home := ⟨hhome, .inr hholds⟩
  have hstarted : planBody c ≠ [] := by
    rw [planBody]
    exact List.cons_ne_nil _ _
  cases hcurrent : p.currentModelIndex with
  | none => exact absurd hcurrent (h.started hstarted)
  | some current =>
    have hlookup : (planLogits c).lookup = ["lm_head.weight", "model.embed_tokens.weight"] :=
      Eq.refl _
    rw [modelIndexOf, hcurrent, hlookup] at hfile
    rw [hlookup] at hfind ⊢
    cases hhead : p.layerMap "lm_head.weight" with
    | some index =>
      simp only [List.findSome?_cons, hhead] at hfile
      obtain ⟨known, hknown, hhas⟩ := (h.map _ _).mp hhead
      rw [hknown.1] at hfile
      rw [Option.some.inj hfile] at hhas hknown
      have hname : w.layerName = "lm_head.weight" := by
        obtain ⟨tensor, htensor⟩ := Option.isSome_iff_exists.mp hhas
        simp only [findTensor, List.findSome?_cons, htensor, Option.map_some, Option.some.injEq,
          Prod.mk.injEq] at hfind
        exact hfind.1.symm
      rw [hname]
      constructor
      · intro _ i other hother hsome
        have hindex := hc.once hother hknown.1 hsome hhas
        rw [hindex, hknown.1] at hother
        rw [hindex, ← Option.some.inj hother]
        exact hknown.2
      · intro _
        exact firstName_first hknown.1 hhas
    | none =>
      have hplace := (h.map "model.embed_tokens.weight" place).mpr ⟨home, hopen, hembed⟩
      simp only [List.findSome?_cons, hhead, hplace] at hfile
      rw [hhome] at hfile
      have hmissing : ∀ {i : ℕ} {other : SafetensorsFile Value}, Opened files (planBody c) i other →
          ¬(other "lm_head.weight").isSome := by
        intro i other hother hsome
        have hmap := (h.map "lm_head.weight" i).mpr ⟨other, hother, hsome⟩
        rw [hhead] at hmap
        cases hmap
      have hname : w.layerName = "model.embed_tokens.weight" := by
        obtain ⟨hmem, htensor⟩ := findTensor_mem hfind
        rw [List.mem_cons, List.mem_singleton] at hmem
        cases hmem with
        | inl hfirst =>
          rw [hfirst, ← Option.some.inj hfile] at htensor
          exact absurd (Option.isSome_iff_exists.mpr ⟨t, htensor⟩) (hmissing hopen)
        | inr hsecond => exact hsecond
      rw [hname, firstName_second (by simp) hhome hembed]
      constructor
      · intro hnone i other hother hsome
        exact absurd hsome (hnone other (List.mem_of_getElem? hother))
      · intro hknown other hmem hsome
        obtain ⟨i, hother⟩ := List.mem_iff_getElem?.mp hmem
        exact hmissing ⟨hother, hknown i other hother hsome⟩ hsome

end Converter

section Agreement

variable {numbers : Numbers Value} {c : Config} {files : List (SafetensorsFile Value)}

/-- The tensor of an entry, and the operation that the entry is for. -/
structure Assigned (numbers : Numbers Value) (c : Config) (files : List (SafetensorsFile Value))
    (e : Entry) (load : WeightLoad) (w : Written) : Prop where
  /-- The name of the operation. -/
  opName : load.opName = e.opName
  /-- Its index. -/
  opIndex : load.opIndex = e.opIndex
  /-- The expert. -/
  expertIndex : load.expertIndex = e.expertIndex
  /-- The format that the operation has. -/
  floatType : load.source.size.floatType = some w.floatType
  /-- The name of the tensor. -/
  layerName : firstName files e.names = some w.layerName
  /-- The tensor of the checkpoint. -/
  wrote : Wrote numbers c files e.item w

/-- The loader walks from a byte of the file to another one. To each operation it gives the bytes of
its tensor. -/
def Walks (numbers : Numbers Value) (c : Config) (files : List (SafetensorsFile Value))
    (data : ℕ → UInt8) : ℕ → List Entry → List WeightLoad → List Written → ℕ → Prop
  | b, [], [], [], last => b = last
  | b, e :: es, load :: loads, w :: ws, last =>
    Assigned numbers c files e load w ∧
      firstBytes (fun i => data (b + i)) load.source.size.nBytes = w.bytes ∧
      Walks numbers c files data (b + load.source.size.nBytes) es loads ws last
  | _, _, _, _, _ => False

/-- The loader reads the header of a file as that of the configuration, and gives each operation the
tensor of its name and layer, up to the end of the file. -/
structure Agrees (numbers : Numbers Value) (files : List (SafetensorsFile Value))
    (converted : Converted) (maxSeqLen : ℕ) (syncType : NnFloatType) (net : LlmNet) : Prop where
  /-- The header. -/
  header : loadLlmHeader converted.file maxSeqLen syncType =
    .ok (expectedHeader converted.config maxSeqLen syncType converted.header.length
      converted.file.length)
  /-- The tensors. -/
  walk : Walks numbers converted.config files (fun i => converted.file.getD i 0)
    converted.header.length (layout converted.config) (loads net) converted.written
    converted.file.length

/-- A tensor in the file has the values of the checkpoint in whole blocks. -/
theorem wrote_bytes (hc : Checkpoint c files) {e : Entry} {w : Written} (he : e ∈ layout c)
    (h : Wrote numbers c files e.item w) :
    WholeBlocks e.floatType (e.numel (mlpSize c)) ∧
      w.bytes.length = getBytes e.floatType (e.numel (mlpSize c)) := by
  obtain ⟨file, hfile, t, t', htensor, htransform, hbytes⟩ := h.bytes
  have hshape := hc.shapes e he w.layerName h.name file hfile t htensor
  have hnumel : t'.numel = e.numel (mlpSize c) := by
    rw [Tensor.numel, applyTransform_shape htransform, hshape, Entry.numel]
  rw [← hnumel]
  exact writeTensor_ok hbytes

theorem firstBytes_at (before piece rest : List UInt8) :
    firstBytes (fun i => (before ++ (piece ++ rest)).getD (before.length + i) 0) piece.length =
      piece := by
  apply List.ext_getElem
  · rw [firstBytes, List.length_map, List.length_range]
  · intro i hi hlt
    simp only [firstBytes, List.getElem_map, List.getElem_range, List.getD_eq_getElem?_getD]
    rw [List.getElem?_append_right (Nat.le_add_right _ _), Nat.add_sub_cancel_left,
      List.getElem?_append_left hlt, List.getElem?_eq_getElem hlt, Option.getD_some]

/-- The walk of the loader goes well exactly when each tensor has the right name and the size that
the loader computes. -/
theorem walks_iff (hc : Checkpoint c files) {es : List Entry} {loads : List WeightLoad}
    {ws : List Written} (hes : ∀ e ∈ es, e ∈ layout c)
    (hloads : List.Forall₂ (Loads (ffSize c)) es loads)
    (hws : List.Forall₂ (fun e w => Wrote numbers c files e.item w) es ws) (before : List UInt8) :
    Walks numbers c files (fun i => (before ++ ws.flatMap Written.bytes).getD i 0) before.length es
        loads ws (before ++ ws.flatMap Written.bytes).length ↔
      List.Forall₂ (fun e w => firstName files e.names = some w.layerName ∧
        e.numel (ffSize c) % 2 ^ 32 = e.numel (mlpSize c)) es ws := by
  induction hloads generalizing ws before with
  | nil =>
    cases hws
    simp [Walks]
  | @cons e load es loads hload _ ih =>
    cases hws with
    | @cons _ w _ ws hwrote hrest =>
      obtain ⟨hwhole, hlength⟩ := wrote_bytes hc (hes e List.mem_cons_self) hwrote
      have hsplit : before ++ (w :: ws).flatMap Written.bytes =
          before ++ (w.bytes ++ ws.flatMap Written.bytes) := by
        rw [List.flatMap_cons]
      have hsize : load.source.size.nBytes = w.bytes.length ↔
          e.numel (ffSize c) % 2 ^ 32 = e.numel (mlpSize c) := by
        rw [hload.nBytes, hlength]
        constructor
        · intro heq
          exact getBytes_inj hload.whole hwhole heq
        · intro heq
          rw [heq]
      have hmore := ih (fun other hother => hes other (List.mem_cons_of_mem e hother)) hrest
        (before ++ w.bytes)
      rw [List.append_assoc, List.length_append] at hmore
      rw [List.forall₂_cons, ← hmore, ← hsize, hsplit, Walks]
      constructor
      · intro h
        obtain ⟨hassigned, hbytes, hwalk⟩ := h
        have hnBytes : load.source.size.nBytes = w.bytes.length := by
          rw [← hbytes, firstBytes, List.length_map, List.length_range]
        rw [hnBytes] at hwalk
        exact ⟨⟨hassigned.layerName, hnBytes⟩, hwalk⟩
      · intro h
        obtain ⟨⟨hname, hnBytes⟩, hwalk⟩ := h
        have hfloat : load.source.size.floatType = some w.floatType := by
          rw [hload.floatType, hwrote.floatType]
          exact Eq.refl _
        rw [hnBytes]
        exact ⟨⟨hload.opName, hload.opIndex, hload.expertIndex, hfloat, hname, hwrote⟩,
          firstBytes_at _ _ _, hwalk⟩

theorem exists_of_forall₂ {α β : Type} {r : α → β → Prop} {l : List α} {m : List β}
    (h : List.Forall₂ r l m) {a : α} (ha : a ∈ l) : ∃ b ∈ m, r a b := by
  induction h with
  | nil => cases ha
  | @cons first second l m hfirst _ ih =>
    cases List.mem_cons.mp ha with
    | inl heq =>
      rw [heq]
      exact ⟨second, List.mem_cons_self, hfirst⟩
    | inr hmem =>
      obtain ⟨b, hb, hrest⟩ := ih hmem
      exact ⟨b, List.mem_cons_of_mem second hb, hrest⟩

theorem length_le_flatMap {ws : List Written} {w : Written} (h : w ∈ ws) :
    w.bytes.length ≤ (ws.flatMap Written.bytes).length := by
  induction ws with
  | nil => cases h
  | cons other ws ih =>
    rw [List.flatMap_cons, List.length_append]
    cases List.mem_cons.mp h with
    | inl heq =>
      rw [heq]
      exact Nat.le_add_right _ _
    | inr hmem => exact Nat.le_trans (ih hmem) (Nat.le_add_left _ _)

/-- After the header there is at least the embedding and a norm. -/
theorem eight_le_length (hc : Checkpoint c files) {ws : List Written}
    (h : List.Forall₂ (fun e w => Wrote numbers c files e.item w) (layout c) ws) :
    8 ≤ (ws.flatMap Written.bytes).length := by
  have hembed : (⟨["model.embed_tokens.weight"], .f32, none, fun _ => [c.vocabSize, c.dim],
      "embedding", 0, 0⟩ : Entry) ∈ layout c := List.mem_cons_self
  have hnorm : (⟨["model.norm.weight"], .f32, none, fun _ => [c.dim], "final_norm", 0, 0⟩ : Entry) ∈
      (layout c).tail := by
    have htail : (layout c).tail = (List.range c.nLayers).flatMap (layerEntries c) ++
        [⟨["model.norm.weight"], .f32, none, fun _ => [c.dim], "final_norm", 0, 0⟩] ++
        [logitsEntry c] := Eq.refl _
    rw [htail]
    exact List.mem_append_left _ (List.mem_append_right _ (List.mem_singleton_self _))
  have hproduct : 0 < c.vocabSize * c.dim := Nat.mul_pos hc.vocab_pos hc.dim_pos
  have hdim := hc.dim_pos
  have hsplit : layout c = (layout c).head (List.cons_ne_nil _ _) :: (layout c).tail := Eq.refl _
  rw [hsplit] at h
  cases h with
  | @cons _ w _ ws hfirst hrest =>
    obtain ⟨last, hlast, hwrote⟩ := exists_of_forall₂ hrest hnorm
    have hfirstLength := (wrote_bytes hc hembed hfirst).2
    have hlastLength := (wrote_bytes hc (List.mem_of_mem_tail hnorm) hwrote).2
    have hle := length_le_flatMap hlast
    simp only [getBytes, Entry.numel, List.prod_cons, List.prod_nil, Nat.mul_one] at hfirstLength
    simp only [getBytes, Entry.numel, List.prod_cons, List.prod_nil, Nat.mul_one] at hlastLength
    rw [List.flatMap_cons, List.length_append]
    omega

theorem loadConfig_epsilon {hf : HfConfig} {weightsFloatType : NnFloatType} {config : Config}
    (h : loadConfig hf weightsFloatType = .ok config) :
    ∀ e ∈ config.normEpsilon, e = 5 ∨ e = 6 := by
  obtain ⟨_, _, h⟩ := bind_eq_ok h
  obtain ⟨_, _, h⟩ := bind_eq_ok h
  obtain ⟨_, _, h⟩ := bind_eq_ok h
  obtain ⟨epsilon, hepsilon, h⟩ := bind_eq_ok h
  injection h with h
  rw [← h]
  intro e he
  rw [Option.mem_def] at he
  simp only at he
  cases hrms : hf.rmsNormEps with
  | none =>
    rw [hrms, parseOption] at hepsilon
    injection hepsilon with hepsilon
    rw [← hepsilon] at he
    cases he
  | some value =>
    rw [hrms, parseOption, he] at hepsilon
    cases value with
    | e5 =>
      injection hepsilon with hepsilon
      exact .inl (Option.some.inj hepsilon).symm
    | e6 =>
      injection hepsilon with hepsilon
      exact .inr (Option.some.inj hepsilon).symm
    | other text => cases hepsilon

/-- What a conversion consists of. -/
theorem convert_ok {hf : HfConfig} {weightsFloatType : String} {converted : Converted}
    (h : convert numbers hf weightsFloatType files = .ok converted) :
    (∀ e ∈ converted.config.normEpsilon, e = 5 ∨ e = 6) ∧
      writeHeader (params converted.config) = .ok converted.header ∧
      Processor.write numbers converted.config files = .ok converted.written := by
  obtain ⟨floatType, _, h⟩ := bind_eq_ok h
  obtain ⟨config, hconfig, h⟩ := bind_eq_ok h
  obtain ⟨header, hheader, h⟩ := bind_eq_ok h
  obtain ⟨written, hwritten, h⟩ := bind_eq_ok h
  injection h with h
  rw [← h]
  exact ⟨loadConfig_epsilon hconfig, hheader, hwritten⟩

/-- The name of a tensor before the logits is that of its entry. -/
theorem firstName_of_body {e : Entry} {w : Written} (he : e ∈ bodyLayout c)
    (h : Wrote numbers c files e.item w) : firstName files e.names = some w.layerName := by
  have hitem : e.item ∈ planBody c := by
    rw [planBody_eq]
    exact List.mem_map_of_mem he
  obtain ⟨name, hname⟩ := lookup_of_mem_planBody hitem
  have hnames : e.names = [name] := hname
  have hmem := h.name
  rw [hname, List.mem_singleton] at hmem
  obtain ⟨file, hfile, t, _, htensor, _⟩ := h.bytes
  rw [hmem] at htensor
  have hany : files.any (fun file => (file name).isSome) = true :=
    List.any_eq_true.mpr ⟨file, hfile, Option.isSome_iff_exists.mpr ⟨t, htensor⟩⟩
  rw [hnames, hmem, firstName, List.find?_cons, hany]

/-- The converter and the loader agree exactly when words count the values of each tensor, the
feed-forward blocks have the size of the architecture, and the converter has opened the file of the
logits before it looks for them. -/
theorem agrees_iff {hf : HfConfig} {weightsFloatType : String} {converted : Converted}
    {maxSeqLen nBatches : ℕ} {syncType : NnFloatType} {topology : NnParallelTopology}
    {ppStageLayerCounts : Option (List ℕ)} {fusedLmHeadArgmax : Bool} {net : LlmNet}
    (hconvert : convert numbers hf weightsFloatType files = .ok converted)
    (hc : Checkpoint converted.config files)
    (hnet : buildLlmNet (expectedHeader converted.config maxSeqLen syncType converted.header.length
      converted.file.length).header topology nBatches ppStageLayerCounts fusedLmHeadArgmax =
        .ok net) :
    Agrees numbers files converted maxSeqLen syncType net ↔
      (∀ e ∈ layout converted.config, e.numel (mlpSize converted.config) < 2 ^ 32) ∧
        (0 < converted.config.nLayers → ffSize converted.config * converted.config.dim % 2 ^ 32 =
          mlpSize converted.config * converted.config.dim) ∧
        LogitsKnown converted.config files := by
  obtain ⟨hepsilon, hheader, hwrite⟩ := convert_ok hconvert
  obtain ⟨p, p', body, w, hlearned, hbody, hlogits, hwritten⟩ := write_ok hc hwrite
  obtain ⟨_, hshape, _, _, _⟩ := buildLlmNet_ok hnet
  obtain ⟨hnetHeader, hs⟩ := shapeOf_of_build hshape
  have hh : HeaderOf converted.config net.shape := ⟨_, _, _, _, hnetHeader⟩
  have hloads := forall₂_netLoads hs hh net.nodeConfigs.length
    ((net.nodeConfigs[0]?.map fun config => config.placement.tpGroupEnd).getD 0)
  rw [planBody_eq, List.forall₂_map_left_iff] at hbody
  have hlast : Wrote numbers converted.config files (logitsEntry converted.config).item w :=
    writeItem_wrote hlogits
  have hws : List.Forall₂ (fun e w => Wrote numbers converted.config files e.item w)
      (layout converted.config) converted.written := by
    rw [layout, hwritten]
    exact List.rel_append hbody (.cons hlast .nil)
  have hread : loadLlmHeader converted.file maxSeqLen syncType =
      .ok (expectedHeader converted.config maxSeqLen syncType converted.header.length
        converted.file.length) :=
    loadLlmHeader_written hheader hepsilon hc.headSize_pos maxSeqLen syncType
      (eight_le_length hc hws)
  have hwalk := walks_iff hc (fun e he => he) hloads hws converted.header
  have hname : firstName files (logitsEntry converted.config).names = some w.layerName ↔
      LogitsKnown converted.config files := by
    obtain ⟨first, _, hfirst⟩ := exists_of_forall₂ hbody List.mem_cons_self
    obtain ⟨home, hhome, t, _, htensor, _⟩ := hfirst.bytes
    have hembed := List.mem_singleton.mp hfirst.name
    rw [hembed] at htensor
    obtain ⟨place, hplace⟩ := List.mem_iff_getElem?.mp hhome
    exact logits_name_iff hc hlearned hplace (Option.isSome_iff_exists.mpr ⟨t, htensor⟩) hlogits
  rw [← and_assoc, ← numel_agree_iff, ← hname]
  constructor
  · intro h
    have hall := hwalk.mp h.walk
    constructor
    · intro e he
      obtain ⟨_, _, _, hsize⟩ := exists_of_forall₂ hall he
      exact hsize
    · rw [layout, hwritten] at hall
      have hend := List.forall₂_drop_append _ _ _ hall
      rw [← hbody.length_eq, List.drop_left] at hend
      cases hend with
      | cons hfacts _ => exact hfacts.1
  · intro h
    obtain ⟨hsizes, hlogitsName⟩ := h
    refine ⟨hread, hwalk.mpr ?_⟩
    have hnamed : List.Forall₂ (fun e w => firstName files e.names = some w.layerName)
        (layout converted.config) converted.written := by
      have hfirst := (List.forall₂_and_left (bodyLayout converted.config) body).mpr
        ⟨fun e he => he, hbody⟩
      rw [layout, hwritten]
      exact List.rel_append (hfirst.imp fun e w hboth => firstName_of_body hboth.1 hboth.2)
        (.cons hlogitsName .nil)
    have hboth := (List.forall₂_and_left (layout converted.config) converted.written).mpr
      ⟨hsizes, hnamed⟩
    exact hboth.imp fun e w hfacts => ⟨hfacts.2, hfacts.1⟩

/-- Operations get tensors of the names of their entries. -/
theorem Walks.names {data : ℕ → UInt8} {es : List Entry} {loads : List WeightLoad}
    {ws : List Written} {b last : ℕ} (h : Walks numbers c files data b es loads ws last) :
    (es.map fun e => firstName files e.names) = ws.map fun w => some w.layerName := by
  induction es generalizing loads ws b with
  | nil =>
    cases ws with
    | nil => exact Eq.refl _
    | cons w ws =>
      cases loads <;> cases h
  | cons e es ih =>
    cases loads with
    | nil => cases h
    | cons load loads =>
      cases ws with
      | nil => cases h
      | cons w ws =>
        obtain ⟨hassigned, _, hrest⟩ := h
        rw [List.map_cons, List.map_cons, hassigned.layerName, ih hrest]

section Shards

/-- Values without any information. -/
def blankNumbers : Numbers Unit where
  f32 := fun _ => List.Vector.replicate 4 0
  f16 := fun _ => List.Vector.replicate 2 0
  q40 := fun _ => List.Vector.replicate 18 0
  q80 := fun _ => List.Vector.replicate 34 0

/-- A file with one tensor. -/
def shard (name : String) (shape : List ℕ) : SafetensorsFile Unit := fun other =>
  if other = name then some ⟨shape, fun _ => ()⟩ else none

/-- A configuration without layers. -/
def noLayers : HfConfig :=
  ⟨"llama", "silu", 2, 2, 0, 1, 1, 8, 2, none, none, none, none, none, none, none⟩

/-- The configuration that the converter makes of it. -/
def noLayersConfig : Config :=
  ⟨.llama, .silu, 2, 2, 0, 1, 1, .f32, 8, 2, 0, 0, none, none, none, none, none⟩

/-- Three files, the one in the middle has the logits only. -/
def hiddenLogits : List (SafetensorsFile Unit) :=
  [shard "model.embed_tokens.weight" [2, 2], shard "lm_head.weight" [2, 2],
    shard "model.norm.weight" [2]]

/-- Two files, the embedding is used for the logits. -/
def tiedLogits : List (SafetensorsFile Unit) :=
  [shard "model.embed_tokens.weight" [2, 2], shard "model.norm.weight" [2]]

theorem shard_some {name other : String} {shape : List ℕ} (h : (shard name shape other).isSome) :
    other = name := by
  by_contra hne
  rw [shard, if_neg hne] at h
  cases h

theorem layout_noLayers : layout noLayersConfig =
    [⟨["model.embed_tokens.weight"], .f32, none, fun _ => [2, 2], "embedding", 0, 0⟩,
      ⟨["model.norm.weight"], .f32, none, fun _ => [2], "final_norm", 0, 0⟩,
      ⟨["lm_head.weight", "model.embed_tokens.weight"], .f32, none, fun _ => [2, 2],
        "final_matmul_logits", 0, 0⟩] := Eq.refl _

/-- Files with one tensor each are a checkpoint when no name is there twice and the tensors have the
extents of the configuration. -/
theorem checkpoint_shards {c : Config} (shards : List (String × List ℕ)) (hdim : 0 < c.dim)
    (hvocab : 0 < c.vocabSize) (hhead : 0 < c.headSize) (hnames : (shards.map Prod.fst).Nodup)
    (hshapes : ∀ e ∈ layout c, ∀ s ∈ shards, s.1 ∈ e.names → s.2 = e.shape (mlpSize c)) :
    Checkpoint c (shards.map fun s => shard s.1 s.2) where
  dim_pos := hdim
  vocab_pos := hvocab
  headSize_pos := hhead
  once := by
    intro i j file other name hfile hother hsome hsomeOther
    rw [List.getElem?_map] at hfile hother
    obtain ⟨s, hs, rfl⟩ := Option.map_eq_some_iff.mp hfile
    obtain ⟨t, ht, rfl⟩ := Option.map_eq_some_iff.mp hother
    have hname : (shards.map Prod.fst)[i]? = (shards.map Prod.fst)[j]? := by
      rw [List.getElem?_map, List.getElem?_map, hs, ht, Option.map_some, Option.map_some,
        ← shard_some hsome, ← shard_some hsomeOther]
    have hlt : i < (shards.map Prod.fst).length := by
      rw [List.length_map]
      exact (List.getElem?_eq_some_iff.mp hs).1
    exact (List.getElem?_inj hlt hnames).mp hname
  shapes := by
    intro e he name hname file hfile t ht
    obtain ⟨s, hs, rfl⟩ := List.mem_map.mp hfile
    have hsome : (shard s.1 s.2 name).isSome := Option.isSome_iff_exists.mpr ⟨t, ht⟩
    have hsame := shard_some hsome
    rw [hsame] at hname ht
    rw [shard, if_pos (Eq.refl _)] at ht
    injection ht with ht
    rw [← ht]
    exact hshapes e he s hs hname

theorem checkpoint_hiddenLogits : Checkpoint noLayersConfig hiddenLogits := by
  have h := checkpoint_shards (c := noLayersConfig)
    [("model.embed_tokens.weight", [2, 2]), ("lm_head.weight", [2, 2]), ("model.norm.weight", [2])]
    (by decide) (by decide) (by decide) (by decide) (by rw [layout_noLayers]; decide)
  exact h

theorem checkpoint_tiedLogits : Checkpoint noLayersConfig tiedLogits := by
  have h := checkpoint_shards (c := noLayersConfig)
    [("model.embed_tokens.weight", [2, 2]), ("model.norm.weight", [2])]
    (by decide) (by decide) (by decide) (by decide) (by rw [layout_noLayers]; decide)
  exact h

theorem exists_of_toOption {α β : Type} {x : Except String α} {f : α → β} {b : β}
    (h : x.toOption.map f = some b) : ∃ a, x = .ok a ∧ f a = b := by
  cases x with
  | error e => cases h
  | ok a =>
    injection h with h
    exact ⟨a, Eq.refl _, h⟩

/-- The loader builds the graph of the configuration on one node. -/
theorem buildLlmNet_noLayers (headerSize fileSize : ℕ) : ∃ net,
    buildLlmNet (expectedHeader noLayersConfig 0 .f32 headerSize fileSize).header ⟨1, 1, 1, 1⟩ 1
      none false = .ok net := by
  have hok : (buildLlmNet (expectedHeader noLayersConfig 0 .f32 0 0).header ⟨1, 1, 1, 1⟩ 1 none
      false).toOption.map (fun _ => ()) = some () := by
    decide +kernel
  obtain ⟨net, hnet, _⟩ := exists_of_toOption hok
  exact ⟨net, hnet⟩

theorem convert_tiedLogits : ∃ converted,
    convert blankNumbers noLayers "f32" tiedLogits = .ok converted ∧
      converted.config = noLayersConfig := by
  have hok : (convert blankNumbers noLayers "f32" tiedLogits).toOption.map Converted.config =
      some noLayersConfig := by
    decide +kernel
  exact exists_of_toOption hok

/-- The embedding is written in the place of the logits. -/
theorem convert_hiddenLogits : ∃ converted,
    convert blankNumbers noLayers "f32" hiddenLogits = .ok converted ∧
      converted.config = noLayersConfig ∧ converted.written.map Written.layerName =
        ["model.embed_tokens.weight", "model.norm.weight", "model.embed_tokens.weight"] := by
  have hok : (convert blankNumbers noLayers "f32" hiddenLogits).toOption.map (fun converted =>
      (converted.config, converted.written.map Written.layerName)) = some (noLayersConfig,
        ["model.embed_tokens.weight", "model.norm.weight", "model.embed_tokens.weight"]) := by
    decide +kernel
  obtain ⟨converted, hconvert, hboth⟩ := exists_of_toOption hok
  injection hboth with hconfig hnames
  exact ⟨converted, hconvert, hconfig, hnames⟩

/-- The logits of a checkpoint without layers that has them in the file of the embedding. -/
theorem agrees_iff_tiedLogits : ∃ converted net,
    convert blankNumbers noLayers "f32" tiedLogits = .ok converted ∧
      (Agrees blankNumbers tiedLogits converted 0 .f32 net ↔
        (∀ e ∈ layout converted.config, e.numel (mlpSize converted.config) < 2 ^ 32) ∧
          (0 < converted.config.nLayers → ffSize converted.config * converted.config.dim % 2 ^ 32 =
            mlpSize converted.config * converted.config.dim) ∧
          LogitsKnown converted.config tiedLogits) := by
  obtain ⟨converted, hconvert, hconfig⟩ := convert_tiedLogits
  obtain ⟨net, hnet⟩ := buildLlmNet_noLayers converted.header.length converted.file.length
  rw [← hconfig] at hnet
  have hc : Checkpoint converted.config tiedLogits := by
    rw [hconfig]
    exact checkpoint_tiedLogits
  exact ⟨converted, net, hconvert, agrees_iff hconvert hc hnet⟩

/-- The logits in a file that the converter has not opened are not found. -/
theorem not_agrees_hiddenLogits : ¬∀ (converted : Converted) (net : LlmNet),
    convert blankNumbers noLayers "f32" hiddenLogits = .ok converted →
    Checkpoint converted.config hiddenLogits →
    buildLlmNet (expectedHeader converted.config 0 .f32 converted.header.length
      converted.file.length).header ⟨1, 1, 1, 1⟩ 1 none false = .ok net →
    Agrees blankNumbers hiddenLogits converted 0 .f32 net := by
  intro hall
  obtain ⟨converted, hconvert, hconfig, hnames⟩ := convert_hiddenLogits
  obtain ⟨net, hnet⟩ := buildLlmNet_noLayers converted.header.length converted.file.length
  have hc : Checkpoint converted.config hiddenLogits := by
    rw [hconfig]
    exact checkpoint_hiddenLogits
  rw [← hconfig] at hnet
  have hwalk := (hall converted net hconvert hc hnet).walk.names
  have hwritten : converted.written.map (fun w => some w.layerName) =
      (converted.written.map Written.layerName).map some := by
    rw [List.map_map]
    exact Eq.refl _
  rw [hwritten, hnames, hconfig, layout_noLayers] at hwalk
  revert hwalk
  decide

end Shards

end Agreement

end LayerSkip.ModelFileAgreement

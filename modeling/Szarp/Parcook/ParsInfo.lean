import Szarp.Parcook.Averages

/-!
# The table of combined parameters

`configure_pars_infos`: which parameters are words of combined ones.
-/

namespace Szarp
namespace Parcook

/-- A parameter of the section of draw definables: whether it has a formula for `parcook`, and for
a combined one the indices of its words. -/
structure DrawDefinable where
  rpn : Bool
  combined : Option (ℕ × ℕ)

/-- What `parcook` reads of a configuration; of the defined parameters, whether they have a
formula. -/
structure Ipk where
  paramsCount : ℕ
  defined : List Bool
  drawDefinables : List DrawDefinable

namespace Ipk

/-- `VTlen`, an `ushort`: the parameters of the devices and, behind the first defined parameter,
those with a formula. -/
def vtLen (ipk : Ipk) : ℕ :=
  (ipk.paramsCount +
    if ipk.defined = [] then 0
    else ipk.defined.count true + (ipk.drawDefinables.map DrawDefinable.rpn).count true) % 2 ^ 16

/-- The words of the combined parameters, in their order. -/
def combined (ipk : Ipk) : List (ℕ × ℕ) := ipk.drawDefinables.filterMap DrawDefinable.combined

end Ipk

/-- The entries of one combined parameter are written; `none`: outside the table. -/
def writeInfos (vtLen : ℕ) (table : ℕ → Option ParamInfo) (words : ℕ × ℕ) :
    Option (ℕ → Option ParamInfo) :=
  if words.1 < vtLen ∧ words.2 < vtLen then
    some (Function.update (Function.update table words.1 (some (.msw words.2))) words.2
      (some (.lsw words.1)))
  else none

def configureParsInfos (ipk : Ipk) : Option (ℕ → Option ParamInfo) := do
  let table ← ipk.combined.foldlM (writeInfos ipk.vtLen) fun _ => none
  some fun i => if i < ipk.vtLen then some ((table i).getD .single) else table i

/-! ## The last assignment counts -/

/-- All words of some combined parameters. -/
def words (ps : List (ℕ × ℕ)) : List ℕ := ps.flatMap fun p => [p.1, p.2]

def lastInfo : List (ℕ × ℕ) → ℕ → Option ParamInfo
  | [], _ => none
  | (m, l) :: ps, i =>
    (lastInfo ps i).or (if i = l then some (.lsw m) else if i = m then some (.msw l) else none)

theorem lastInfo_eq_none (ps : List (ℕ × ℕ)) (i : ℕ) : lastInfo ps i = none ↔ i ∉ words ps := by
  induction ps with
  | nil => simp [lastInfo, words]
  | cons p ps ih =>
    obtain ⟨m, l⟩ := p
    rw [lastInfo, Option.or_eq_none_iff, ih]
    simp only [words, List.flatMap_cons, List.mem_append, List.mem_cons, List.not_mem_nil, or_false,
      not_or]
    split_ifs with hl hm
    · simp [hl]
    · simp [hm]
    · simp [hl, hm]

theorem foldlM_writeInfos {vtLen : ℕ} {ps : List (ℕ × ℕ)} (h : ∀ i ∈ words ps, i < vtLen)
    (table : ℕ → Option ParamInfo) : ps.foldlM (writeInfos vtLen) table =
      some fun i => (lastInfo ps i).or (table i) := by
  induction ps generalizing table with
  | nil => rfl
  | cons p ps ih =>
    obtain ⟨m, l⟩ := p
    have hm : m < vtLen := h m (by simp [words])
    have hl : l < vtLen := h l (by simp [words])
    have hps : ∀ i ∈ words ps, i < vtLen := fun i hi => h i (by
      simp only [words, List.flatMap_cons, List.mem_append]
      exact Or.inr hi)
    rw [List.foldlM_cons, writeInfos, if_pos ⟨hm, hl⟩, Option.bind_eq_bind, Option.bind_some,
      ih hps]
    congr 1
    funext i
    rw [lastInfo, Option.or_assoc]
    congr 1
    by_cases hil : i = l
    · rw [if_pos hil, hil, Function.update_self]
      rfl
    · rw [if_neg hil, Function.update_of_ne hil]
      by_cases him : i = m
      · rw [if_pos him, him, Function.update_self]
        rfl
      · rw [if_neg him, Function.update_of_ne him]
        rfl

theorem foldlM_writeInfos_eq_none {vtLen : ℕ} {ps : List (ℕ × ℕ)}
    (h : ¬ ∀ i ∈ words ps, i < vtLen) (table : ℕ → Option ParamInfo) :
    ps.foldlM (writeInfos vtLen) table = none := by
  induction ps generalizing table with
  | nil => simp [words] at h
  | cons p ps ih =>
    obtain ⟨m, l⟩ := p
    rw [List.foldlM_cons, writeInfos]
    by_cases hml : m < vtLen ∧ l < vtLen
    · rw [if_pos hml, Option.bind_eq_bind, Option.bind_some]
      apply ih
      intro hps
      apply h
      intro i hi
      simp only [words, List.flatMap_cons, List.mem_append, List.mem_cons, List.not_mem_nil,
        or_false] at hi
      rcases hi with (rfl | rfl) | hi
      · exact hml.1
      · exact hml.2
      · exact hps i hi
    · rw [if_neg hml]
      rfl

/-! ## Pairs -/

/-- Every combined parameter has its words to itself, but for those both words of which are taken
by later ones. -/
def Separate : List (ℕ × ℕ) → Prop
  | [] => True
  | (m, l) :: ps =>
    ((m ∈ words ps ∧ l ∈ words ps) ∨ (m ∉ words ps ∧ l ∉ words ps ∧ m ≠ l)) ∧ Separate ps

/-- The entries of the two words of a pair name each other. -/
def PairedTable (table : ℕ → Option ParamInfo) : Prop :=
  (∀ i l, table i = some (.msw l) → table l = some (.lsw i)) ∧
    ∀ i m, table i = some (.lsw m) → table m = some (.msw i)

theorem mem_words_of_lastInfo {ps : List (ℕ × ℕ)} {i j : ℕ}
    (h : lastInfo ps i = some (.msw j) ∨ lastInfo ps i = some (.lsw j)) : j ∈ words ps := by
  induction ps with
  | nil => simp [lastInfo] at h
  | cons p ps ih =>
    obtain ⟨m, l⟩ := p
    simp only [words, List.flatMap_cons, List.mem_append, List.mem_cons, List.not_mem_nil, or_false]
    rw [lastInfo] at h
    cases hps : lastInfo ps i with
    | some e =>
      rw [hps, Option.some_or] at h
      rw [hps] at ih
      exact Or.inr (ih h)
    | none =>
      rw [hps, Option.none_or] at h
      left
      split_ifs at h with hl hm
      · simpa [eq_comm] using Or.inl h
      · simpa [eq_comm] using Or.inr h
      · simp at h

theorem lastInfo_cons_of_mem {m l i : ℕ} {ps : List (ℕ × ℕ)} (h : i ∈ words ps) :
    lastInfo ((m, l) :: ps) i = lastInfo ps i := by
  obtain ⟨e, he⟩ := Option.ne_none_iff_exists'.mp (fun hnone => (lastInfo_eq_none ps i).mp hnone h)
  rw [lastInfo, he, Option.some_or]

theorem lastInfo_cons_of_not_mem {m l i : ℕ} {ps : List (ℕ × ℕ)} (h : i ∉ words ps) :
    lastInfo ((m, l) :: ps) i =
      if i = l then some (.lsw m) else if i = m then some (.msw l) else none := by
  rw [lastInfo, (lastInfo_eq_none ps i).mpr h, Option.none_or]

theorem pairedTable_tail {m l : ℕ} {ps : List (ℕ × ℕ)} (h : PairedTable (lastInfo ((m, l) :: ps))) :
    PairedTable (lastInfo ps) := by
  have hmem : ∀ {i e}, lastInfo ps i = some e → i ∈ words ps := by
    intro i e he
    by_contra hi
    rw [(lastInfo_eq_none ps i).mpr hi] at he
    simp at he
  constructor
  · intro i j hi
    have hj := mem_words_of_lastInfo (Or.inl hi)
    rw [← lastInfo_cons_of_mem (m := m) (l := l) (hmem hi)] at hi
    rw [← lastInfo_cons_of_mem (m := m) (l := l) hj]
    exact h.1 i j hi
  · intro i j hi
    have hj := mem_words_of_lastInfo (Or.inr hi)
    rw [← lastInfo_cons_of_mem (m := m) (l := l) (hmem hi)] at hi
    rw [← lastInfo_cons_of_mem (m := m) (l := l) hj]
    exact h.2 i j hi

theorem pairedTable_cons {m l : ℕ} {ps : List (ℕ × ℕ)} (h : PairedTable (lastInfo ps))
    (hsep : (m ∈ words ps ∧ l ∈ words ps) ∨ (m ∉ words ps ∧ l ∉ words ps ∧ m ≠ l)) :
    PairedTable (lastInfo ((m, l) :: ps)) := by
  have hold : ∀ i e, i ∈ words ps → lastInfo ((m, l) :: ps) i = some e →
      (∀ j, e = .msw j → lastInfo ((m, l) :: ps) j = some (.lsw i)) ∧
        ∀ j, e = .lsw j → lastInfo ((m, l) :: ps) j = some (.msw i) := by
    intro i e hi he
    rw [lastInfo_cons_of_mem hi] at he
    constructor
    · rintro j rfl
      rw [lastInfo_cons_of_mem (mem_words_of_lastInfo (Or.inl he))]
      exact h.1 i j he
    · rintro j rfl
      rw [lastInfo_cons_of_mem (mem_words_of_lastInfo (Or.inr he))]
      exact h.2 i j he
  -- an index that no later pair takes is one of the two words, and then so is the other
  have hnew : ∀ i e, i ∉ words ps → lastInfo ((m, l) :: ps) i = some e →
      (∀ j, e = .msw j → lastInfo ((m, l) :: ps) j = some (.lsw i)) ∧
        ∀ j, e = .lsw j → lastInfo ((m, l) :: ps) j = some (.msw i) := by
    intro i e hi he
    rw [lastInfo_cons_of_not_mem hi] at he
    split_ifs at he with hil him
    · rcases hsep with hboth | ⟨hm, hl, hne⟩
      · exact absurd (hil ▸ hboth.2) hi
      · constructor
        · rintro j rfl
          simp at he
        · rintro j rfl
          have hj : m = j := by simpa using he
          rw [← hj, lastInfo_cons_of_not_mem hm, if_neg hne, if_pos rfl, hil]
    · rcases hsep with hboth | ⟨hm, hl, hne⟩
      · exact absurd (him ▸ hboth.1) hi
      · constructor
        · rintro j rfl
          have hj : l = j := by simpa using he
          rw [← hj, lastInfo_cons_of_not_mem hl, if_pos rfl, him]
        · rintro j rfl
          simp at he
  constructor
  · intro i j hi
    by_cases hmem : i ∈ words ps
    · exact (hold i _ hmem hi).1 j rfl
    · exact (hnew i _ hmem hi).1 j rfl
  · intro i j hi
    by_cases hmem : i ∈ words ps
    · exact (hold i _ hmem hi).2 j rfl
    · exact (hnew i _ hmem hi).2 j rfl

theorem separate_head {m l : ℕ} {ps : List (ℕ × ℕ)} (h : PairedTable (lastInfo ((m, l) :: ps))) :
    (m ∈ words ps ∧ l ∈ words ps) ∨ (m ∉ words ps ∧ l ∉ words ps ∧ m ≠ l) := by
  by_cases hl : l ∈ words ps
  · left
    refine ⟨?_, hl⟩
    by_contra hm
    have hml : m ≠ l := fun heq => hm (heq ▸ hl)
    have hentry := h.1 m l (by rw [lastInfo_cons_of_not_mem hm, if_neg hml, if_pos rfl])
    rw [lastInfo_cons_of_mem hl] at hentry
    exact hm (mem_words_of_lastInfo (Or.inr hentry))
  · right
    have hentry := h.2 l m (by rw [lastInfo_cons_of_not_mem hl, if_pos rfl])
    refine ⟨fun hm => ?_, hl, ?_⟩
    · rw [lastInfo_cons_of_mem hm] at hentry
      exact hl (mem_words_of_lastInfo (Or.inl hentry))
    · rintro rfl
      rw [lastInfo_cons_of_not_mem hl, if_pos rfl] at hentry
      simp at hentry

theorem pairedTable_iff (ps : List (ℕ × ℕ)) : PairedTable (lastInfo ps) ↔ Separate ps := by
  induction ps with
  | nil => simp [PairedTable, lastInfo, Separate]
  | cons p ps ih =>
    obtain ⟨m, l⟩ := p
    rw [Separate, ← ih]
    exact ⟨fun h => ⟨separate_head h, pairedTable_tail h⟩, fun h => pairedTable_cons h.2 h.1⟩

/-! ## Averages -/

/-- After the loop over all parameters, with data in every ring, the value of a parameter does not
depend on the value that it had. -/
def Averaged (info : ℕ → ParamInfo) (vtLen i : ℕ) : Prop :=
  ∀ t level probes probes', (∀ j, t.cnts level j ≠ 0) →
    calculateAverages info vtLen t level probes i = calculateAverages info vtLen t level probes' i

section Averaged

variable {info : ℕ → ParamInfo} {t : Tables} {level : Level}

/-- The entry of `j` makes `calculateAverage` write the value of `i`. -/
def Writes (info : ℕ → ParamInfo) (j i : ℕ) : Prop :=
  (info j = .single ∧ i = j) ∨ ∃ l, info j = .msw l ∧ (i = j ∨ i = l)

theorem update_congr {probes probes' : ℕ → Word} {i : ℕ} (j : ℕ) (v : Word)
    (h : probes i = probes' i) : Function.update probes j v i = Function.update probes' j v i := by
  by_cases hij : i = j
  · rw [hij, Function.update_self, Function.update_self]
  · rw [Function.update_of_ne hij, Function.update_of_ne hij, h]

theorem calculateAverage_congr {probes probes' : ℕ → Word} {i : ℕ} (j : ℕ)
    (h : probes i = probes' i) :
    calculateAverage info t level j probes i = calculateAverage info t level j probes' i := by
  unfold calculateAverage
  cases info j with
  | single => exact update_congr j _ h
  | lsw m => exact h
  | msw l =>
    dsimp only
    split_ifs
    · exact update_congr j _ h
    · exact update_congr l _ (update_congr j _ h)

theorem calculateAverage_writes {i j : ℕ} (h : Writes info j i) (hcnt : t.cnts level j ≠ 0)
    (probes probes' : ℕ → Word) :
    calculateAverage info t level j probes i = calculateAverage info t level j probes' i := by
  unfold calculateAverage
  rcases h with ⟨hj, rfl⟩ | ⟨l, hj, hi⟩
  · rw [hj]
    dsimp only
    rw [Function.update_self, Function.update_self]
  · rw [hj]
    dsimp only
    rw [if_neg hcnt, if_neg hcnt]
    by_cases hil : i = l
    · rw [hil, Function.update_self, Function.update_self]
    · have hij : i = j := by simpa [hil] using hi
      rw [Function.update_of_ne hil, Function.update_of_ne hil, hij, Function.update_self,
        Function.update_self]

theorem averaged_of_writes {vtLen i j : ℕ} (hj : j < vtLen) (h : Writes info j i) :
    Averaged info vtLen i := by
  intro t level probes probes' hcnts
  -- behind the entry that writes the value, equal values stay equal
  have hrest : ∀ (js : List ℕ) (probes probes' : ℕ → Word), probes i = probes' i →
      js.foldl (fun probes j => calculateAverage info t level j probes) probes i =
        js.foldl (fun probes j => calculateAverage info t level j probes) probes' i := by
    intro js
    induction js with
    | nil => exact fun _ _ heq => heq
    | cons k js ih => exact fun _ _ heq => ih _ _ (calculateAverage_congr k heq)
  obtain ⟨before, after, hsplit⟩ := List.append_of_mem (List.mem_range.mpr hj)
  unfold calculateAverages
  rw [hsplit, List.foldl_append, List.foldl_append, List.foldl_cons, List.foldl_cons]
  apply hrest
  exact calculateAverage_writes h (hcnts j) _ _

theorem averaged_of_paired {vtLen i : ℕ} (hp : Paired info vtLen) (hi : i < vtLen) :
    Averaged info vtLen i := by
  cases hinfo : info i with
  | single => exact averaged_of_writes hi (Or.inl ⟨hinfo, rfl⟩)
  | msw l => exact averaged_of_writes hi (Or.inr ⟨l, hinfo, Or.inl rfl⟩)
  | lsw m =>
    have hm := hp.lsw i hi m hinfo
    exact averaged_of_writes hm.1 (Or.inr ⟨i, hm.2, Or.inr rfl⟩)

end Averaged

/-- The table has an entry for every parameter, the words of combined parameters are pairs, and
every parameter is averaged. -/
def WellPaired (ipk : Ipk) : Prop :=
  ∃ table, configureParsInfos ipk = some table ∧
    ∃ info : ℕ → ParamInfo, (∀ i < ipk.vtLen, table i = some (info i)) ∧
      Paired info ipk.vtLen ∧ ∀ i < ipk.vtLen, Averaged info ipk.vtLen i

theorem paired_iff {ps : List (ℕ × ℕ)} {vtLen : ℕ} (h : ∀ i ∈ words ps, i < vtLen)
    {info : ℕ → ParamInfo} (hinfo : ∀ i < vtLen, info i = (lastInfo ps i).getD .single) :
    Paired info vtLen ↔ PairedTable (lastInfo ps) := by
  have hmem : ∀ {i e}, lastInfo ps i = some e → i < vtLen ∧ info i = e := by
    intro i e he
    have hi : i < vtLen := by
      apply h
      by_contra hnot
      rw [(lastInfo_eq_none ps i).mpr hnot] at he
      simp at he
    refine ⟨hi, ?_⟩
    rw [hinfo i hi, he, Option.getD_some]
  have hget : ∀ {i e}, i < vtLen → info i = e → e ≠ .single → lastInfo ps i = some e := by
    intro i e hi he hne
    rw [hinfo i hi] at he
    cases hlast : lastInfo ps i with
    | none =>
      rw [hlast, Option.getD_none] at he
      exact absurd he.symm hne
    | some e' =>
      rw [hlast, Option.getD_some] at he
      rw [he]
  constructor
  · intro hp
    constructor
    · intro i l hi
      have hl := hp.msw i (hmem hi).1 l (hmem hi).2
      exact hget hl.1 hl.2 ParamInfo.noConfusion
    · intro i m hi
      have hm := hp.lsw i (hmem hi).1 m (hmem hi).2
      exact hget hm.1 hm.2 ParamInfo.noConfusion
  · intro hp
    constructor
    · exact fun i hi l hl => hmem (hp.1 i l (hget hi hl ParamInfo.noConfusion))
    · exact fun i hi m hm => hmem (hp.2 i m (hget hi hm ParamInfo.noConfusion))

/-- The table is right exactly when all words are in it and no combined parameter loses only one of
its words to later ones. -/
theorem wellPaired_iff (ipk : Ipk) :
    WellPaired ipk ↔ (∀ i ∈ words ipk.combined, i < ipk.vtLen) ∧ Separate ipk.combined := by
  by_cases hwords : ∀ i ∈ words ipk.combined, i < ipk.vtLen
  · rw [← pairedTable_iff]
    have htable : configureParsInfos ipk = some fun i =>
        if i < ipk.vtLen then some ((lastInfo ipk.combined i).getD .single)
        else lastInfo ipk.combined i := by
      rw [configureParsInfos, foldlM_writeInfos hwords]
      dsimp only [Option.bind_eq_bind, Option.bind_some]
      congr 1
      funext i
      rw [Option.or_none]
    constructor
    · rintro ⟨table, hsome, info, hinfo, hp, -⟩
      refine ⟨hwords, (paired_iff hwords fun i hi => ?_).mp hp⟩
      have hi' := hinfo i hi
      rw [htable, Option.some.injEq] at hsome
      rw [← hsome] at hi'
      dsimp only at hi'
      rw [if_pos hi, Option.some.injEq] at hi'
      exact hi'.symm
    · rintro ⟨-, hp⟩
      have hpaired := (paired_iff hwords (fun i _ => rfl)).mpr hp
      exact ⟨_, htable, fun i => (lastInfo ipk.combined i).getD .single,
        fun i hi => if_pos hi, hpaired, fun i hi => averaged_of_paired hpaired hi⟩
  · constructor
    · rintro ⟨table, hsome, -⟩
      rw [configureParsInfos, foldlM_writeInfos_eq_none hwords] at hsome
      simp at hsome
    · exact fun h => absurd h.1 hwords

/-- Two combined parameters with a common first word. -/
def sharedMsw : Ipk := ⟨3, [], [⟨false, some (0, 1)⟩, ⟨false, some (0, 2)⟩]⟩

/-- The entry of parameter 1 names parameter 0, whose entry names parameter 2. -/
theorem not_wellPaired_sharedMsw : ¬ WellPaired sharedMsw := by
  rintro ⟨table, hsome, info, hinfo, hp, -⟩
  have h0 : table 0 = some (.msw 2) := by
    rw [← Option.some.inj hsome]
    rfl
  have h1 : table 1 = some (.lsw 0) := by
    rw [← Option.some.inj hsome]
    rfl
  have hinfo0 : info 0 = .msw 2 := by
    have := hinfo 0 (by decide)
    rw [h0, Option.some.injEq] at this
    exact this.symm
  have hinfo1 : info 1 = .lsw 0 := by
    have := hinfo 1 (by decide)
    rw [h1, Option.some.injEq] at this
    exact this.symm
  have hpair := (hp.lsw 1 (by decide) 0 hinfo1).2
  rw [hinfo0] at hpair
  simp at hpair

end Parcook
end Szarp

import Szarp.Ipk.CheckConfiguration

/-!
# Evaluating definable parameters

The recursion of `szb_get_datablock`, the constructor of `DefinableDatablock`, `szb_search_last` and
`GetBlocksUsedInFormula` over the operands of a parameter, for the blocks of one month.
-/

namespace Szarp
namespace Szbase
namespace Evaluation

open Ipk (Config Params Machine)

/-! ## The recursion -/

/-- What is found outside the recursion: the meaner date, the last dates of the parameters that are
not computed from operands, whether a combined parameter has no data at a time, whether a block is
loaded from its cache file with nothing left to do, and whether a block can be used. -/
structure Database (cfg : Config) where
  meanerDate : ℤ
  lastDate : cfg.Param → ℤ
  isMissing : cfg.Param → ℤ → Bool
  onDisk : cfg.Param → Bool
  initialized : cfg.Param → Bool

/-- The parameters, and the blocks of the month that are in the buffer; `true` is a block that is
full or has been loaded at the present date. -/
structure Store (cfg : Config) where
  params : Params cfg
  blocks : cfg.Param → Option Bool

variable {cfg : Config}

/-- `szb_search_last`; the first argument bounds the depth of the calls. Assertions are not
checked. -/
def szbSearchLast (db : Database cfg) : ℕ → Params cfg → cfg.Param → Option ℤ
  | 0, _, _ => none
  | n + 1, s, i =>
    match (s i).paramType with
    | .combined =>
      match (s i).cache with
      | msw :: lsw :: _ =>
        match szbSearchLast db n s msw with
        | none => none
        | some t =>
          if t = -1 then some (-1)
          else if db.isMissing i t then szbSearchLast db n s lsw
          else some t
      | _ => some (db.lastDate i)
    | .definable =>
      if (s i).cache = [] ∨ (s i).isNUsed then some db.meanerDate
      else (s i).cache.foldlM (fun t tp => (szbSearchLast db n s tp).map (min t)) db.meanerDate
    | _ => some (db.lastDate i)

inductive Request (cfg : Config) where
  | datablock (i : cfg.Param)
  | refresh (i : cfg.Param)

/-- `GetBlocksUsedInFormula`; `visit` tells whether there is a block. -/
def usedBlocks (visit : Store cfg → Request cfg → Option (Store cfg × Bool)) :
    Store cfg → List cfg.Param → Option (Store cfg)
  | st, [] => some st
  | st, tp :: tps =>
    match visit st (.datablock tp) with
    | none => none
    | some (st, false) => usedBlocks visit st tps
    | some (st, true) =>
      match visit st (.refresh tp) with
      | none => none
      | some (st, _) => usedBlocks visit st tps

/-- A block that has been made is put into the buffer when it can be used. -/
def Store.addBlock (db : Database cfg) (st : Store cfg) (i : cfg.Param) : Store cfg × Bool :=
  if db.initialized i then ({ st with blocks := Function.update st.blocks i (some true) }, true)
  else (st, false)

/-- `szb_get_datablock` with the constructors, and `Refresh`; the first argument bounds the depth of
the calls. -/
def visit (db : Database cfg) (m : Machine) :
    ℕ → Store cfg → Request cfg → Option (Store cfg × Bool)
  | 0, _, _ => none
  | n + 1, st, .datablock i =>
    if (st.blocks i).isSome then some (st, true)
    else
      let r := if cfg.isDefinable i then st.params.prepare m i else (st.params, false)
      let st := { st with params := r.1 }
      if r.2 then some (st, false)
      else if (st.params i).paramType ≠ .definable then some (st.addBlock db i)
      else
        match szbSearchLast db n st.params i with
        | none => none
        | some _ =>
          if db.onDisk i then some (st.addBlock db i)
          else (usedBlocks (visit db m n) st (st.params i).cache).map fun st => st.addBlock db i
  | n + 1, st, .refresh i =>
    if st.blocks i ≠ some false then some (st, true)
    else
      let st := { st with blocks := Function.update st.blocks i (some true) }
      if (st.params i).paramType ≠ .definable then some (st, true)
      else (usedBlocks (visit db m n) st (st.params i).cache).map fun st => (st, true)

/-! ## Operands -/

/-- The operands whose blocks a parameter is computed from. -/
def evaluated (s : Params cfg) (i : cfg.Param) : List cfg.Param :=
  if (s i).paramType = .definable then (s i).cache else []

/-- The operands whose last dates `szb_search_last` needs. -/
def searched (s : Params cfg) (i : cfg.Param) : List cfg.Param :=
  match (s i).paramType with
  | .definable => if (s i).isNUsed then [] else (s i).cache
  | .combined => if 2 ≤ (s i).cache.length then (s i).cache.take 2 else []
  | _ => []

abbrev Evaluates (s : Params cfg) (i j : cfg.Param) : Prop := j ∈ evaluated s i

abbrev Searches (s : Params cfg) (i j : cfg.Param) : Prop := j ∈ searched s i

/-- No operand that the blocks of a parameter are computed from is computed from itself, and no one
whose last date is needed needs its own. -/
structure Acyclic (s : Params cfg) (i : cfg.Param) : Prop where
  evaluated : ∀ j, Relation.ReflTransGen (Evaluates s) i j → ¬ Relation.TransGen (Evaluates s) j j
  searched : ∀ j, Relation.ReflTransGen (Evaluates s) i j → (s j).paramType = .definable →
    ∀ k, Relation.ReflTransGen (Searches s) j k → ¬ Relation.TransGen (Searches s) k k

/-! ## Evaluations that come to an end -/

section Ends

variable {s : Params cfg} (db : Database cfg)

/-- The search for a last date comes to an end. -/
def SearchEnds (s : Params cfg) (i : cfg.Param) : Prop :=
  ∃ t n, ∀ k, n ≤ k → szbSearchLast db k s i = some t

theorem fold_ends {tps : List cfg.Param} (h : ∀ tp ∈ tps, SearchEnds db s tp) (t : ℤ) :
    ∃ t' n, ∀ k, n ≤ k →
      tps.foldlM (fun t tp => (szbSearchLast db k s tp).map (min t)) t = some t' := by
  induction tps generalizing t with
  | nil => exact ⟨t, 0, fun _ _ => rfl⟩
  | cons tp tps ih =>
    obtain ⟨u, n, hu⟩ := h tp List.mem_cons_self
    obtain ⟨t', n', ht'⟩ := ih (fun tp' hmem => h tp' (List.mem_cons_of_mem tp hmem)) (min t u)
    refine ⟨t', max n n', fun k hk => ?_⟩
    rw [List.foldlM_cons, hu k (by omega)]
    exact ht' k (by omega)

theorem searchEnds_of_acc {i : cfg.Param} (h : Acc (fun b a => Searches s a b) i) :
    SearchEnds db s i := by
  -- The induction is on the operands; a search needs one more level than theirs.
  induction h with
  | intro i _ ih =>
    have hlast : ((s i).paramType = .real ∨ (s i).paramType = .lua) → SearchEnds db s i := by
      intro htype
      refine ⟨db.lastDate i, 1, fun k hk => ?_⟩
      obtain ⟨k, rfl⟩ := Nat.exists_eq_add_of_le' hk
      rcases htype with htype | htype <;> simp only [szbSearchLast, htype]
    cases htype : (s i).paramType with
    | real => exact hlast (.inl htype)
    | lua => exact hlast (.inr htype)
    -- of a combined parameter only the first two operands are searched for
    | combined =>
      have hmem : ∀ tp ∈ (s i).cache.take 2, 2 ≤ (s i).cache.length → SearchEnds db s tp := by
        intro tp htp hlen
        apply ih
        rwa [Searches, searched, htype, if_pos hlen]
      cases hcache : (s i).cache with
      | nil =>
        refine ⟨db.lastDate i, 1, fun k hk => ?_⟩
        obtain ⟨k, rfl⟩ := Nat.exists_eq_add_of_le' hk
        simp only [szbSearchLast, htype, hcache]
      | cons msw rest =>
        cases rest with
        | nil =>
          refine ⟨db.lastDate i, 1, fun k hk => ?_⟩
          obtain ⟨k, rfl⟩ := Nat.exists_eq_add_of_le' hk
          simp only [szbSearchLast, htype, hcache]
        | cons lsw rest =>
          obtain ⟨t, n, ht⟩ := hmem msw (by simp [hcache]) (by simp [hcache])
          obtain ⟨u, n', hu⟩ := hmem lsw (by simp [hcache]) (by simp [hcache])
          refine ⟨if t = -1 then -1 else if db.isMissing i t then u else t, max n n' + 1, ?_⟩
          intro k hk
          obtain ⟨k, rfl⟩ := Nat.exists_eq_add_of_le' (show 1 ≤ k by omega)
          simp only [szbSearchLast, htype, hcache, ht k (by omega), hu k (by omega)]
          split_ifs <;> rfl
    | definable =>
      -- a formula without operands, or with the operator `N`, has the meaner date
      by_cases hleaf : (s i).cache = [] ∨ (s i).isNUsed = true
      · refine ⟨db.meanerDate, 1, fun k hk => ?_⟩
        obtain ⟨k, rfl⟩ := Nat.exists_eq_add_of_le' hk
        simp only [szbSearchLast, htype, if_pos hleaf]
      · rw [not_or] at hleaf
        have hmem : ∀ tp ∈ (s i).cache, SearchEnds db s tp := by
          intro tp htp
          apply ih
          rwa [Searches, searched, htype, if_neg hleaf.2]
        obtain ⟨t, n, ht⟩ := fold_ends db hmem db.meanerDate
        refine ⟨t, n + 1, fun k hk => ?_⟩
        obtain ⟨k, rfl⟩ := Nat.exists_eq_add_of_le' (show 1 ≤ k by omega)
        simp only [szbSearchLast, htype, if_neg (not_or.mpr hleaf)]
        exact ht k (by omega)

variable (m : Machine)

/-- A request comes to an end from any blocks of the buffer, and leaves the parameters alone. -/
def VisitEnds (s : Params cfg) (r : Request cfg) : Prop :=
  ∀ blocks, ∃ blocks' found n, ∀ k, n ≤ k →
    visit db m k ⟨s, blocks⟩ r = some (⟨s, blocks'⟩, found)

theorem usedBlocks_ends {tps : List cfg.Param}
    (h : ∀ tp ∈ tps, VisitEnds db m s (.datablock tp) ∧ VisitEnds db m s (.refresh tp))
    (blocks : cfg.Param → Option Bool) :
    ∃ blocks' n, ∀ k, n ≤ k → usedBlocks (visit db m k) ⟨s, blocks⟩ tps = some ⟨s, blocks'⟩ := by
  induction tps generalizing blocks with
  | nil => exact ⟨blocks, 0, fun _ _ => rfl⟩
  | cons tp tps ih =>
    obtain ⟨hget, hrefresh⟩ := h tp List.mem_cons_self
    have hrest := ih fun tp' hmem => h tp' (List.mem_cons_of_mem tp hmem)
    obtain ⟨blocks₁, found, n₁, h₁⟩ := hget blocks
    cases found with
    | false =>
      obtain ⟨blocks₂, n₂, h₂⟩ := hrest blocks₁
      refine ⟨blocks₂, max n₁ n₂, fun k hk => ?_⟩
      simp only [usedBlocks, h₁ k (by omega)]
      exact h₂ k (by omega)
    | true =>
      obtain ⟨blocks₂, found', n₂, h₂⟩ := hrefresh blocks₁
      obtain ⟨blocks₃, n₃, h₃⟩ := hrest blocks₂
      refine ⟨blocks₃, max n₁ (max n₂ n₃), fun k hk => ?_⟩
      simp only [usedBlocks, h₁ k (by omega), h₂ k (by omega)]
      exact h₃ k (by omega)

theorem addBlock_eq (st : Store cfg) (i : cfg.Param) :
    ∃ blocks found, st.addBlock db i = (⟨st.params, blocks⟩, found) := by
  unfold Store.addBlock
  split
  · exact ⟨_, _, rfl⟩
  · exact ⟨_, _, rfl⟩

/-- Where nothing is left to be prepared, `szb_get_datablock` prepares nothing. -/
theorem prepare_eq_of_prepared {i : cfg.Param}
    (hi : cfg.isDefinable i = true → (s i).prepared = true) :
    (if cfg.isDefinable i then s.prepare m i else (s, false)) = (s, false) := by
  split
  case isTrue hdef => exact Params.prepare_of_prepared (hi hdef)
  case isFalse => rfl

theorem visitEnds_of_acc (hclosed : s.Closed) {i : cfg.Param}
    (hi : cfg.isDefinable i = true → (s i).prepared = true)
    (hacc : Acc (fun b a => Evaluates s a b) i)
    (hsearch : ∀ j, Relation.ReflTransGen (Evaluates s) i j → (s j).paramType = .definable →
      SearchEnds db s j) :
    VisitEnds db m s (.datablock i) ∧ VisitEnds db m s (.refresh i) := by
  -- The induction is on the operands: their blocks come to an end first.
  induction hacc with
  | intro i _ ih =>
    by_cases htype : (s i).paramType = .definable
    · have hused : ∀ blocks, ∃ blocks' n, ∀ k, n ≤ k →
          usedBlocks (visit db m k) ⟨s, blocks⟩ (s i).cache = some ⟨s, blocks'⟩ := by
        apply usedBlocks_ends db m
        intro tp htp
        have hnext : Evaluates s i tp := by rwa [Evaluates, evaluated, if_pos htype]
        exact ih tp hnext (hclosed i tp htp)
          fun j hj hdef => hsearch j (.head hnext hj) hdef
      constructor
      · intro blocks
        by_cases hfound : (blocks i).isSome = true
        · refine ⟨blocks, true, 1, fun k hk => ?_⟩
          obtain ⟨k, rfl⟩ := Nat.exists_eq_add_of_le' hk
          simp only [visit, if_pos hfound]
        -- the block is made: its last date is searched for, and the blocks of its operands are used
        · obtain ⟨t, n, ht⟩ := hsearch i .refl htype
          obtain ⟨blocks', n', hblocks⟩ := hused blocks
          cases hdisk : db.onDisk i with
          | true =>
            obtain ⟨blocks₂, found, hadd⟩ := addBlock_eq db ⟨s, blocks⟩ i
            refine ⟨blocks₂, found, n + 1, fun k hk => ?_⟩
            obtain ⟨k, rfl⟩ := Nat.exists_eq_add_of_le' (show 1 ≤ k by omega)
            simp only [visit, if_neg hfound, prepare_eq_of_prepared m hi, htype, hdisk,
              ht k (by omega), hadd]
            rfl
          | false =>
            obtain ⟨blocks₂, found, hadd⟩ := addBlock_eq db ⟨s, blocks'⟩ i
            refine ⟨blocks₂, found, max n n' + 1, fun k hk => ?_⟩
            obtain ⟨k, rfl⟩ := Nat.exists_eq_add_of_le' (show 1 ≤ k by omega)
            simp only [visit, if_neg hfound, prepare_eq_of_prepared m hi, htype, hdisk,
              ht k (by omega), hblocks k (by omega), Option.map_some, hadd]
            rfl
      · intro blocks
        -- the block is reloaded, marked as full before its operands are visited
        by_cases hopen : blocks i = some false
        · obtain ⟨blocks', n, hblocks⟩ := hused (Function.update blocks i (some true))
          refine ⟨blocks', true, n + 1, fun k hk => ?_⟩
          obtain ⟨k, rfl⟩ := Nat.exists_eq_add_of_le' (show 1 ≤ k by omega)
          simp only [visit, hopen, ne_eq, not_true, if_false, htype, hblocks k (by omega),
            Option.map_some]
        · refine ⟨blocks, true, 1, fun k hk => ?_⟩
          obtain ⟨k, rfl⟩ := Nat.exists_eq_add_of_le' hk
          simp only [visit, ne_eq, hopen, not_false_eq_true, if_true]
    -- other parameters have no operands
    · constructor
      · intro blocks
        by_cases hfound : (blocks i).isSome = true
        · refine ⟨blocks, true, 1, fun k hk => ?_⟩
          obtain ⟨k, rfl⟩ := Nat.exists_eq_add_of_le' hk
          simp only [visit, if_pos hfound]
        · obtain ⟨blocks₂, found, hadd⟩ := addBlock_eq db ⟨s, blocks⟩ i
          refine ⟨blocks₂, found, 1, fun k hk => ?_⟩
          obtain ⟨k, rfl⟩ := Nat.exists_eq_add_of_le' hk
          simp only [visit, if_neg hfound, prepare_eq_of_prepared m hi, ne_eq, htype,
            not_false_eq_true, if_true, hadd]
          rfl
      · intro blocks
        by_cases hopen : blocks i = some false
        · refine ⟨Function.update blocks i (some true), true, 1, fun k hk => ?_⟩
          obtain ⟨k, rfl⟩ := Nat.exists_eq_add_of_le' hk
          simp only [visit, hopen, ne_eq, not_true, if_false, htype, not_false_eq_true, if_true]
        · refine ⟨blocks, true, 1, fun k hk => ?_⟩
          obtain ⟨k, rfl⟩ := Nat.exists_eq_add_of_le' hk
          simp only [visit, ne_eq, hopen, not_false_eq_true, if_true]

end Ends

/-! ## Evaluations that go round -/

section Cycles

variable {s : Params cfg} {m : Machine}

/-- A data base in which no block can be used, and combined parameters have no data. -/
def barren (cfg : Config) : Database cfg where
  meanerDate := 0
  lastDate _ := 0
  isMissing _ _ := true
  onDisk _ := false
  initialized _ := false

theorem isMissing_barren (i : cfg.Param) (t : ℤ) : (barren cfg).isMissing i t = true := rfl

theorem searchLast_barren {n : ℕ} {i : cfg.Param} {t : ℤ}
    (h : szbSearchLast (barren cfg) n s i = some t) : t = 0 := by
  induction n generalizing i t with
  | zero => exact absurd h (by simp [szbSearchLast])
  | succ n ih =>
    have hfold : ∀ (tps : List cfg.Param) (t : ℤ),
        tps.foldlM (fun t tp => (szbSearchLast (barren cfg) n s tp).map (min t)) 0 = some t →
          t = 0 := by
      intro tps
      induction tps with
      | nil => exact fun t ht => (Option.some.inj ht).symm
      | cons tp tps ihl =>
        intro t ht
        rw [List.foldlM_cons] at ht
        obtain ⟨u, hu, ht⟩ := Option.bind_eq_some_iff.mp ht
        obtain ⟨v, hv, rfl⟩ := Option.map_eq_some_iff.mp hu
        rw [ih hv, min_self] at ht
        exact ihl t ht
    rw [szbSearchLast] at h
    split at h
    · split at h
      · split at h
        · exact absurd h (by simp)
        · rename_i u hu
          rw [ih hu, if_neg (by decide), if_pos (isMissing_barren i 0)] at h
          exact ih h
      · exact (Option.some.inj h).symm
    · split at h
      · exact (Option.some.inj h).symm
      · exact hfold _ t h
    · exact (Option.some.inj h).symm

/-- A search that comes to an end has made searches for the operands, with less depth. -/
theorem searchLast_next {n : ℕ} {a b : cfg.Param}
    (h : (szbSearchLast (barren cfg) n s a).isSome) (hab : Searches s a b) :
    ∃ k < n, (szbSearchLast (barren cfg) k s b).isSome := by
  cases n with
  | zero => exact absurd h (by simp [szbSearchLast])
  | succ n =>
    refine ⟨n, by omega, ?_⟩
    -- the loop over the operands comes to its end only where each search does
    have hfold : ∀ (tps : List cfg.Param) (t : ℤ),
        (tps.foldlM (fun t tp => (szbSearchLast (barren cfg) n s tp).map (min t)) t).isSome →
          ∀ tp ∈ tps, (szbSearchLast (barren cfg) n s tp).isSome := by
      intro tps
      induction tps with
      | nil => exact fun _ _ _ h => absurd h List.not_mem_nil
      | cons tp tps ihl =>
        intro t ht tp' htp'
        rw [List.foldlM_cons] at ht
        cases hu : szbSearchLast (barren cfg) n s tp with
        | none =>
          rw [hu] at ht
          exact absurd ht (by simp)
        | some u =>
          rw [hu] at ht
          rcases List.mem_cons.mp htp' with rfl | htp'
          · rw [hu]
            rfl
          · exact ihl _ ht tp' htp'
    cases htype : (s a).paramType with
    | real => exact absurd hab (by simp [Searches, searched, htype])
    | lua => exact absurd hab (by simp [Searches, searched, htype])
    | definable =>
      rw [Searches, searched, htype] at hab
      dsimp only at hab
      split at hab
      · exact absurd hab List.not_mem_nil
      · rename_i hN
        have hne : ¬ ((s a).cache = [] ∨ (s a).isNUsed = true) := by
          rw [not_or]
          exact ⟨List.ne_nil_of_mem hab, hN⟩
        simp only [szbSearchLast, htype, if_neg hne] at h
        exact hfold _ _ h b hab
    | combined =>
      rw [Searches, searched, htype] at hab
      dsimp only at hab
      split at hab
      · cases hcache : (s a).cache with
        | nil => exact absurd hab (by simp [hcache])
        | cons msw rest =>
          cases rest with
          | nil => rename_i hlen; exact absurd hlen (by simp [hcache])
          | cons lsw rest =>
            simp only [szbSearchLast, htype, hcache] at h
            split at h
            · exact absurd h (by simp)
            · rename_i u hu
              -- in a barren data base the first word has no date; the second one is searched for,
              -- too
              rw [searchLast_barren hu, if_neg (by decide), if_pos (isMissing_barren a 0)] at h
              rw [hcache] at hab
              simp only [List.take_succ_cons, List.take_zero, List.mem_cons, List.not_mem_nil,
                or_false] at hab
              rcases hab with rfl | rfl
              · rw [hu]
                rfl
              · exact h
      · exact absurd hab List.not_mem_nil

/-- In a barren data base an empty buffer stays empty. -/
theorem usedBlocks_barren {visit : Store cfg → Request cfg → Option (Store cfg × Bool)}
    {st : Store cfg} {tps : List cfg.Param}
    (hvisit : ∀ tp ∈ tps, ∀ r, visit st (.datablock tp) = some r → r = (st, false))
    {st' : Store cfg} (h : usedBlocks visit st tps = some st') :
    st' = st ∧ ∀ tp ∈ tps, (visit st (.datablock tp)).isSome := by
  induction tps with
  | nil => exact ⟨(Option.some.inj h).symm, fun _ h => absurd h List.not_mem_nil⟩
  | cons tp tps ih =>
    rw [usedBlocks] at h
    have hfirst := hvisit tp List.mem_cons_self
    cases hv : visit st (.datablock tp) with
    | none =>
      rw [hv] at h
      exact absurd h (by simp)
    | some r =>
      rw [hv, hfirst r hv] at h
      obtain ⟨hst, hrest⟩ := ih (fun tp' hmem => hvisit tp' (List.mem_cons_of_mem tp hmem)) h
      refine ⟨hst, fun tp' hmem => ?_⟩
      rcases List.mem_cons.mp hmem with rfl | hmem
      · rw [hv]
        rfl
      · exact hrest tp' hmem

theorem visit_barren (hclosed : s.Closed) {n : ℕ} {i : cfg.Param} {r : Store cfg × Bool}
    (hi : cfg.isDefinable i = true → (s i).prepared = true)
    (h : visit (barren cfg) m n ⟨s, fun _ => none⟩ (.datablock i) = some r) :
    r = (⟨s, fun _ => none⟩, false) ∧ ((s i).paramType = .definable → ∃ k < n,
      (szbSearchLast (barren cfg) k s i).isSome ∧ ∀ tp ∈ (s i).cache,
        (visit (barren cfg) m k ⟨s, fun _ => none⟩ (.datablock tp)).isSome) := by
  induction n using Nat.strong_induction_on generalizing i r with
  | _ n ih =>
    cases n with
    | zero => exact absurd h (by simp [visit])
    | succ n =>
      simp only [visit, Option.isSome_none, Bool.false_eq_true, if_false,
        prepare_eq_of_prepared m hi] at h
      split at h
      case isTrue htype =>
        exact ⟨(Option.some.inj h).symm, fun hdef => absurd hdef htype⟩
      case isFalse htype =>
        split at h
        · exact absurd h (by simp)
        · rename_i t ht
          obtain ⟨st, hused, rfl⟩ := Option.map_eq_some_iff.mp h
          obtain ⟨rfl, hall⟩ := usedBlocks_barren (fun tp htp r hr =>
            (ih n (by omega) (hclosed i tp htp) hr).1) hused
          refine ⟨rfl, fun _ => ⟨n, by omega, ?_, hall⟩⟩
          rw [ht]
          rfl

/-- An evaluation that comes to an end in a barren data base has met no cycle. -/
theorem acyclic_of_visit (hclosed : s.Closed) {n : ℕ} {i : cfg.Param}
    (hi : cfg.isDefinable i = true → (s i).prepared = true)
    (h : (visit (barren cfg) m n ⟨s, fun _ => none⟩ (.datablock i)).isSome) : Acyclic s i := by
  let T : ℕ → cfg.Param → Prop := fun n j =>
    (cfg.isDefinable j = true → (s j).prepared = true) ∧
      (visit (barren cfg) m n ⟨s, fun _ => none⟩ (.datablock j)).isSome
  have hvisit : ∀ n a, T n a → (s a).paramType = .definable → ∃ k < n,
      (szbSearchLast (barren cfg) k s a).isSome ∧ ∀ tp ∈ (s a).cache, T k tp := by
    rintro n a ⟨ha, hsome⟩ htype
    obtain ⟨r, hr⟩ := Option.isSome_iff_exists.mp hsome
    obtain ⟨k, hk, hsearch, hall⟩ := (visit_barren hclosed ha hr).2 htype
    exact ⟨k, hk, hsearch, fun tp htp => ⟨hclosed a tp htp, hall tp htp⟩⟩
  have hnext : ∀ n a b, T n a → Evaluates s a b → ∃ k < n, T k b := by
    intro n a b ha hab
    rw [Evaluates, evaluated] at hab
    split at hab
    · rename_i htype
      obtain ⟨k, hk, -, hall⟩ := hvisit n a ha htype
      exact ⟨k, hk, hall b hab⟩
    · exact absurd hab List.not_mem_nil
  constructor
  · intro j hj
    obtain ⟨k, hT⟩ := Reach.exists_bound hnext ⟨hi, h⟩ hj
    exact Reach.no_cycle_of_bound hnext hT
  · intro j hj htype l hl
    obtain ⟨k, hT⟩ := Reach.exists_bound hnext ⟨hi, h⟩ hj
    obtain ⟨k', -, hsearch, -⟩ := hvisit k j hT htype
    obtain ⟨k'', hT'⟩ := Reach.exists_bound
      (T := fun n j => (szbSearchLast (barren cfg) n s j).isSome)
      (fun _ _ _ => searchLast_next) hsearch hl
    exact Reach.no_cycle_of_bound (T := fun n j => (szbSearchLast (barren cfg) n s j).isSome)
      (fun _ _ _ => searchLast_next) hT'

end Cycles

/-! ## All data bases -/

/-- Without cycles an evaluation comes to an end. -/
theorem visit_ends_of_acyclic (db : Database cfg) (m : Machine) {s : Params cfg}
    (hclosed : s.Closed) {i : cfg.Param} (hi : cfg.isDefinable i = true → (s i).prepared = true)
    (h : Acyclic s i) (blocks : cfg.Param → Option Bool) :
    ∃ n, (visit db m n ⟨s, blocks⟩ (.datablock i)).isSome := by
  obtain ⟨blocks', found, n, hn⟩ := (visitEnds_of_acc db m hclosed hi
    (Reach.acc_of_no_cycle h.evaluated) fun j hj htype =>
      searchEnds_of_acc db (Reach.acc_of_no_cycle (h.searched j hj htype))).1 blocks
  exact ⟨n, by rw [hn n le_rfl]; rfl⟩

/-- A call for a block prepares its parameter, and goes on as if that had been done before. -/
theorem visit_prepare (db : Database cfg) (m : Machine) {s : Params cfg} {i : cfg.Param}
    (hdef : cfg.isDefinable i = true) (hreturns : (s.prepare m i).2 = false)
    {blocks : cfg.Param → Option Bool} (hblock : blocks i = none) (n : ℕ) :
    visit db m n ⟨s, blocks⟩ (.datablock i) =
      visit db m n ⟨(s.prepare m i).1, blocks⟩ (.datablock i) := by
  cases n with
  | zero => rfl
  | succ n =>
    simp only [visit, hblock, hdef, if_true, hreturns, Option.isSome_none, Bool.false_eq_true,
      if_false, Params.prepare_of_prepared (Params.prepare_prepared s i)]

/-- Whatever has been prepared before: the block of a definable parameter is made in every data base
and from every buffer if and only if its preparation fails, or leaves no cycles. -/
theorem evaluation_ends_iff (m : Machine) (earlier : List cfg.Param) {i : cfg.Param}
    (hdef : cfg.isDefinable i = true) :
    let s := (Params.loaded cfg).prepareAll m earlier
    (∀ (db : Database cfg) (blocks : cfg.Param → Option Bool),
        ∃ n, (visit db m n ⟨s, blocks⟩ (.datablock i)).isSome) ↔
      (s.prepare m i).2 = true ∨ Acyclic (s.prepare m i).1 i := by
  intro s
  have hclosed : s.Closed := Params.prepareAll_closed Params.closed_loaded earlier
  have hclosed' : (s.prepare m i).1.Closed := Params.prepare_closed hclosed i
  have hi : cfg.isDefinable i = true → ((s.prepare m i).1 i).prepared = true :=
    fun _ => Params.prepare_prepared s i
  constructor
  · intro h
    by_cases hthrows : (s.prepare m i).2 = true
    · exact .inl hthrows
    · right
      obtain ⟨n, hn⟩ := h (barren cfg) fun _ => none
      rw [visit_prepare _ m hdef (Bool.eq_false_iff.mpr hthrows) rfl] at hn
      exact acyclic_of_visit hclosed' hi hn
  · intro h db blocks
    cases hblock : blocks i with
    | some b =>
      refine ⟨1, ?_⟩
      simp [visit, hblock]
    | none =>
      by_cases hthrows : (s.prepare m i).2 = true
      · refine ⟨1, ?_⟩
        simp [visit, hblock, hdef, hthrows]
      · rcases h with h | h
        · exact absurd h hthrows
        · obtain ⟨n, hn⟩ := visit_ends_of_acyclic db m hclosed' hi h blocks
          exact ⟨n, by rwa [visit_prepare _ m hdef (Bool.eq_false_iff.mpr hthrows) hblock]⟩

/-- A parameter that is computed from a real one. -/
def copied : Config where
  params := [⟨['R'], [], .none, .real, 0, 0, ['R'], true⟩]
  drawdefinable := [⟨['A'], "(R)".toList, .definable, .definable, 0, 1, ['A'], false⟩]
  sends := []

theorem evaluation_ends_copied : ∃ n, (visit (barren copied) .plain n
    ⟨Params.loaded copied, fun _ => none⟩ (.datablock ⟨1, by decide⟩)).isSome := by
  have hleaf : ∀ j k, Evaluates (((Params.loaded copied).prepare .plain ⟨1, by decide⟩).1) j k →
      ∀ l, ¬ Evaluates (((Params.loaded copied).prepare .plain ⟨1, by decide⟩).1) k l := by
    decide
  have hleaf' : ∀ j k, Searches (((Params.loaded copied).prepare .plain ⟨1, by decide⟩).1) j k →
      ∀ l, ¬ Searches (((Params.loaded copied).prepare .plain ⟨1, by decide⟩).1) k l := by
    decide
  exact (evaluation_ends_iff .plain [] (i := ⟨1, by decide⟩) rfl).mpr
    (.inr ⟨fun j _ => Reach.no_cycle_of_flat hleaf j,
      fun _ _ _ k _ => Reach.no_cycle_of_flat hleaf' k⟩) (barren copied) fun _ => none

/-- Two parameters that are computed from each other. -/
def crossed : Config where
  params := []
  drawdefinable := [⟨['A'], "(B)".toList, .definable, .definable, 0, 0, ['A'], false⟩,
    ⟨['B'], "(A)".toList, .definable, .definable, 0, 1, ['B'], false⟩]
  sends := []

/-- The check accepts them, and their evaluation goes on for ever. -/
theorem crossed_goesOn : crossed.checkConfiguration .plain = true ∧
    ¬ ∃ n, (visit (barren crossed) .plain n
      ⟨(Params.loaded crossed).prepareDrawDefinable .plain, fun _ => none⟩
      (.datablock ⟨0, by decide⟩)).isSome := by
  constructor
  · decide
  · rintro ⟨n, hn⟩
    have hacyclic := acyclic_of_visit (Params.prepareAll_closed Params.closed_loaded _)
      (fun _ => by decide) hn
    have hthere : Evaluates ((Params.loaded crossed).prepareDrawDefinable .plain)
        ⟨0, by decide⟩ ⟨1, by decide⟩ := by decide
    have hback : Evaluates ((Params.loaded crossed).prepareDrawDefinable .plain)
        ⟨1, by decide⟩ ⟨0, by decide⟩ := by decide
    exact hacyclic.evaluated _ .refl (.tail (.single hthere) hback)

end Evaluation
end Szbase
end Szarp

import Szarp.Iks.SetTree

/-!
# Writing and reading a set

What `from_json` and `from_xml` read of the trees that `get_json_ptree` and `get_xml_ptree` make.
A set has its name as an attribute, and the loop of `unfold_xmlattr` does not get past an attribute,
so `get_xml_ptree` comes to no result.
-/

namespace Szarp
namespace Iks

open PTree

/-! ## Attributes -/

theorem mem_children_update (f : Tree → Tree) {k k' : Text} (hk : k ≠ k') (path : List Text)
    (v t : Tree) : (k, v) ∈ (update f (k' :: path) t).children ↔ (k, v) ∈ t.children := by
  rw [update, children_node]
  exact Row.mem_alter_of_ne hk

theorem treePath_xmlattr (k : Text) :
    treePath ("<xmlattr>.".toList ++ k) = xmlattr :: treePath k := by
  have hdot : "<xmlattr>.".toList ++ k = xmlattr ++ '.' :: k := by
    have h : "<xmlattr>.".toList = xmlattr ++ ['.'] := by decide
    rw [h, List.append_assoc]
    rfl
  rw [treePath, hdot, List.splitOn_append_cons_self_of_not_mem (by decide)]
  rfl

theorem IsAttr.ne_xmlattr {k : Text} (h : IsAttr k) : k ≠ xmlattr := by
  rintro rfl
  exact absurd h (by decide)

/-- The first loop leaves the attributes in place, so the second one meets them. -/
theorem unfoldAttrs_eq_none {k : Text} {v t : Tree} (h : (k, v) ∈ t.children) (hattr : IsAttr k) :
    unfoldAttrs t = none := by
  rw [unfoldAttrs]
  refine if_pos ⟨(k, v), ?_, hattr⟩
  refine List.foldlRecOn (motive := fun t' : Tree => (k, v) ∈ t'.children) _ _ h fun t' ht' e _ => ?_
  split
  · rw [putChild, treePath_xmlattr, mem_children_update _ hattr.ne_xmlattr]
    exact ht'
  · exact ht'

theorem mem_unfoldChildren {r r' : List (Text × Tree)} (h : unfoldChildren r = some r') {k : Text}
    {v : Tree} (hv : (k, v) ∈ r) : ∃ v', (k, v') ∈ r' := by
  induction r generalizing r' with
  | nil => exact absurd hv List.not_mem_nil
  | cons e r ih =>
    simp only [unfoldChildren, Option.bind_eq_bind, Option.bind_eq_some_iff,
      Option.some.injEq] at h
    obtain ⟨t', -, r'', hr'', rfl⟩ := h
    rcases List.mem_cons.mp hv with rfl | hv
    · exact ⟨t', List.mem_cons_self⟩
    · obtain ⟨v', hv'⟩ := ih hr'' hv
      exact ⟨v', List.mem_cons_of_mem _ hv'⟩

/-- A tree with an attribute is not unfolded. -/
theorem unfoldXmlattr_eq_none {k : Text} {v t : Tree} (h : (k, v) ∈ t.children)
    (hattr : IsAttr k) : unfoldXmlattr t = none := by
  obtain ⟨d, r⟩ := t
  rw [unfoldXmlattr, Option.bind_eq_bind, Option.bind_eq_none_iff]
  intro r' hr'
  obtain ⟨v', hv'⟩ := mem_unfoldChildren hr' h
  exact unfoldAttrs_eq_none (t := .node d r') hv' hattr

/-! ## The name of a set -/

theorem mem_of_getText {key : String} (hkey : treePath key.toList = [key.toList]) {t : Tree}
    {value : Text} (h : getText key t = some value) :
    ∃ v, (key.toList, v) ∈ t.children := by
  rw [getText, hkey, getChild, Option.map_eq_some_iff] at h
  obtain ⟨v, hv, -⟩ := h
  obtain ⟨w, hw, -⟩ := Option.bind_eq_some_iff.mp hv
  exact ⟨w, Row.mem_of_find hw⟩

namespace Set

section

variable {parse : Text → Option ℚ} {print : ℚ → Text} {hashFn : String → UInt64}
  {shown : Text → Text} {s : Set Tree}

/-- A set that is read from JSON keeps its name as an attribute of its description. -/
theorem name_of_fromJson {fuel : ℕ} {j : Tree} (h : fromJson parse print hashFn fuel j = some s) :
    ∃ v, ("@name".toList, v) ∈ s.setDesc.children := by
  rw [fromJson] at h
  simp only [Option.bind_eq_bind, Option.bind_eq_some_iff, Option.some.injEq] at h
  obtain ⟨name, hname, -, -, index, -, coloured, -, rfl⟩ := h
  obtain ⟨v, hv⟩ := mem_of_getText (by decide) hname
  have hhash : treePath "@hash".toList = ["@hash".toList] := by decide
  refine ⟨v, ?_⟩
  rw [finished, putText, put, hhash, mem_children_update _ (by decide)]
  exact Row.mem_erase.mpr ⟨hv, (by decide : "@name".toList ≠ "params".toList)⟩

theorem mem_addChild_foldl (rows : List (Text × Tree)) {e : Text × Tree} {t : Tree}
    (he : e ∈ t.children) :
    e ∈ (rows.foldl (fun t row => t.addChild "param".toList row.2) t).children := by
  refine List.foldlRecOn (motive := fun t' : Tree => e ∈ t'.children) _ _ he fun t' ht' row _ => ?_
  rw [addChild, children_node]
  exact List.mem_append_left _ ht'

/-- The element of a set that has its name as an attribute is not unfolded. -/
theorem getXmlPtree_eq_none (h : ∃ v, ("@name".toList, v) ∈ s.setDesc.children) :
    s.getXmlPtree = none := by
  obtain ⟨v, hv⟩ := h
  have hparams : treePath "params".toList = ["params".toList] := by decide
  have hjson : ("@name".toList, v) ∈ s.getJsonPtree.children := by
    rw [getJsonPtree, putChild, hparams, mem_children_update _ (by decide)]
    exact hv
  have hset : ∀ rows : List (Text × Tree), ("@name".toList, v) ∈
      (((rows.foldl (fun t row => t.addChild "param".toList row.2) s.getJsonPtree).erase
        "params".toList).erase "@hash".toList).children := by
    intro rows
    have hadded := mem_addChild_foldl rows hjson
    have hkept := Row.mem_erase.mpr ⟨hadded, (by decide : "@name".toList ≠ "params".toList)⟩
    exact Row.mem_erase.mpr ⟨hkept, (by decide : "@name".toList ≠ "@hash".toList)⟩
  rw [getXmlPtree, unfoldXmlattr, unfoldChildren, if_pos (by decide),
    unfoldXmlattr_eq_none (hset _) (by decide)]
  rfl

/-! ## The round trip -/

/-- The same name, the same parameters in the same order, and the same hash. -/
def SameSet (hashFn : String → UInt64) (a b : Set Tree) : Prop :=
  a.name = b.name ∧ a.params = b.params ∧ a.hash hashFn = b.hash hashFn

/-- The set comes back from both trees. -/
def RoundTrips (parse : Text → Option ℚ) (print : ℚ → Text) (hashFn : String → UInt64)
    (shown : Text → Text) (s : Set Tree) : Prop :=
  (∃ fuel s', fromJson parse print hashFn fuel s.getJsonPtree = some s' ∧ SameSet hashFn s' s) ∧
    ∃ x t s', s.getXmlPtree = some x ∧ x.getChild (treePath "set".toList) = some t ∧
      fromXml parse hashFn shown t = some s' ∧ SameSet hashFn s' s

/-- No set that is read from JSON comes back. -/
theorem not_roundTrips_of_fromJson {fuel : ℕ} {j : Tree}
    (h : fromJson parse print hashFn fuel j = some s) :
    ¬ RoundTrips parse print hashFn shown s := by
  rintro ⟨-, x, t, s', hx, -⟩
  rw [getXmlPtree_eq_none (name_of_fromJson h)] at hx
  contradiction

/-- `>>` of a number that is written with digits only. -/
def plainNumber (t : Text) : Option ℚ :=
  if t ≠ [] ∧ t.all Char.isDigit then
    some (t.foldl (fun n c => n * 10 + (c.toNat - '0'.toNat : ℕ)) 0)
  else none

def printPlain (q : ℚ) : Text := (Nat.repr q.num.toNat).toList

/-- `{ "@name" : "s" , "params" : [ { "@name" : "p" } , { "@name" : "q" } ] }` -/
def pair : Tree :=
  .node [] [("@name".toList, .node ['s'] []),
    ("params".toList, .node []
      [([], .node [] [("@name".toList, .node ['p'] [])]),
        ([], .node [] [("@name".toList, .node ['q'] [])])])]

theorem pair_not_roundTrips :
    ∃ s, fromJson plainNumber printPlain (fun _ => 0) 1 pair = some s ∧ s.params.length = 2 ∧
      ¬ RoundTrips plainNumber printPlain (fun _ => 0) id s := by
  have hlen : (fromJson plainNumber printPlain (fun _ => 0) 1 pair).map
      (fun s => s.params.length) = some 2 := by decide +kernel
  obtain ⟨s, hs, htwo⟩ := Option.map_eq_some_iff.mp hlen
  exact ⟨s, hs, htwo, not_roundTrips_of_fromJson hs⟩

/-- `{ "@name" : "s" , "params" : [] }` -/
def bare : Tree :=
  .node [] [("@name".toList, .node ['s'] []), ("params".toList, .node [] [])]

/-- A set without parameters does not come back either. -/
theorem bare_not_returned :
    ¬ ∀ (parse : Text → Option ℚ) (print : ℚ → Text) (hashFn : String → UInt64)
      (shown : Text → Text) (fuel : ℕ) (j : Tree) (s : Set Tree),
      fromJson parse print hashFn fuel j = some s → RoundTrips parse print hashFn shown s := by
  intro h
  have hbare : fromJson plainNumber printPlain (fun _ => 0) 0 bare =
      some (finished (fun _ => 0) ['s'] [] (bare.erase "params".toList)) := rfl
  obtain ⟨-, x, t, s', hx, -⟩ := h plainNumber printPlain (fun _ => 0) id 0 bare _ hbare
  rw [getXmlPtree_eq_none (name_of_fromJson hbare)] at hx
  contradiction

end

end Set

end Iks
end Szarp

import Szarp.Boruta.ModbusTables

/-!
# Sound configurations of Modbus units

What holds of the tables of a unit while its elements are configured one after the other, and when the
tables are what the documentation of the elements says.
-/

namespace Szarp
namespace Boruta
namespace ModbusUnit

/-! ## Soundness -/

/-- An operation refers to the registers under the documented addresses. -/
def ParcookRefers (u : ModbusUnit) (registers : Registers) (e : Element)
    (op : ParcookOp RegisterObject) : Prop :=
  ∃ doc, u.documentedParcookOp e = some doc ∧ op.map some = doc.map registers.entries

def SenderRefers (u : ModbusUnit) (registers : Registers) (e : Element)
    (op : SenderOp RegisterObject) : Prop :=
  ∃ doc, u.documentedSenderOp e = some doc ∧ op.map some = doc.map registers.entries

/-- The registers of the elements with the objects that their operations refer to. -/
def objects (u : ModbusUnit) (t : Tables) : List (Reg × RegisterObject) :=
  (u.params.zip t.parcookOps).flatMap (fun x => (u.regs x.1).zip x.2.regs) ++
    (u.sends.zip t.senderOps).flatMap fun x => (u.regs x.1).zip x.2.regs

/-- The tables are what the elements say. -/
structure Sound (u : ModbusUnit) (t : Tables) : Prop where
  parcookOps : List.Forall₂ (u.ParcookRefers t.registers) u.params t.parcookOps
  senderOps : List.Forall₂ (u.SenderRefers t.registers) u.sends t.senderOps
  received : ∀ e ∈ u.params, ∀ r ∈ u.regs e, r ∈ t.received
  sent : ∀ e ∈ u.sends, ∀ r ∈ u.regs e, r ∈ t.sent
  shared : ∀ x ∈ u.objects t, ∀ y ∈ u.objects t, x.2 = y.2 ↔ x.1 = y.1

structure Careful (u : ModbusUnit) : Prop where
  doubles : (∀ e ∈ u.params, Regular false e) ∧ ∀ e ∈ u.sends, Regular true e
  types : ∀ e ∈ u.params ++ u.sends, ∀ e' ∈ u.params ++ u.sends, ∀ a ∈ u.addrs e,
    a ∈ u.addrs e' → e.type = e'.type
  own : (u.params ++ u.sends).Pairwise fun e e' => e'.Makes → ∀ a ∈ u.addrs e', a ∉ u.addrs e
  sends : ∀ e ∈ u.sends, ∀ r ∈ u.regs e,
    ∃ e' ∈ u.sends, e'.valType = .value .integer ∧ r ∈ u.regs e'

/-! ## Runs -/

/-- The elements in the order in which they are configured, and whether they are sent. -/
def elements (u : ModbusUnit) : List (Bool × Element) :=
  u.params.map (false, ·) ++ u.sends.map (true, ·)

def paramsOf (es : List (Bool × Element)) : List Element := (es.filter (!·.1)).map Prod.snd

def sendsOf (es : List (Bool × Element)) : List Element := (es.filter (·.1)).map Prod.snd

def configureAll (stack : ℕ → Fin 4 → ℕ) (es : List (Bool × Element)) (t : Tables) :
    Option Tables :=
  es.foldlM (fun t x => t.configureParam stack x.1 x.2) t

def start (u : ModbusUnit) : Tables where
  floatOrder := u.floatOrder.getD .mswlsw
  doubleOrder := u.doubleOrder.getD .msdlsd
  registers := ⟨fun _ => none, 0⟩
  parcookOps := []
  senderOps := []
  received := []
  sent := []

theorem paramsOf_elements (u : ModbusUnit) : paramsOf u.elements = u.params := by
  simp [paramsOf, elements, List.filter_map, Function.comp_def]

theorem sendsOf_elements (u : ModbusUnit) : sendsOf u.elements = u.sends := by
  simp [sendsOf, elements, List.filter_map, Function.comp_def]

theorem map_snd_elements (u : ModbusUnit) : u.elements.map Prod.snd = u.params ++ u.sends := by
  simp [elements, Function.comp_def]

theorem mem_elements {u : ModbusUnit} {x : Bool × Element} :
    x ∈ u.elements ↔ x.1 = false ∧ x.2 ∈ u.params ∨ x.1 = true ∧ x.2 ∈ u.sends := by
  obtain ⟨isSend, e⟩ := x
  cases isSend <;> simp [elements]

theorem configure_eq_some {u : ModbusUnit} {stack : ℕ → Fin 4 → ℕ} {t : Tables}
    (h : u.configure stack = some t) : configureAll stack u.elements u.start = some t := by
  rw [configure] at h
  obtain ⟨floatOrder, hfloat, h⟩ := Option.bind_eq_some_iff.mp h
  obtain ⟨⟨doubleOrder, member⟩, hdouble, h⟩ := Option.bind_eq_some_iff.mp h
  obtain ⟨t', ht', h⟩ := Option.bind_eq_some_iff.mp h
  have horder : doubleOrder.getD member = u.doubleOrder.getD .msdlsd := by
    cases hattr : u.doubleOrder with
    | missing =>
      rw [hattr] at hdouble
      obtain ⟨rfl, rfl⟩ := Prod.mk.inj (Option.some.inj hdouble)
      rfl
    | invalid =>
      rw [hattr] at hdouble
      contradiction
    | value order =>
      rw [hattr] at hdouble
      cases order with
      | lsdmsd =>
        obtain ⟨rfl, rfl⟩ := Prod.mk.inj (Option.some.inj hdouble)
        rfl
      | msdlsd =>
        obtain ⟨rfl, rfl⟩ := Prod.mk.inj (Option.some.inj hdouble)
        rfl
  rw [← getFloatOrder_eq_some hfloat, horder] at ht'
  rw [configureAll, elements, List.foldlM_append, List.foldlM_map]
  simp only [List.foldlM_map]
  split at h
  · contradiction
  · exact Option.bind_eq_some_iff.mpr ⟨t', ht', h⟩

/-- What holds of the tables when some elements have been configured. -/
structure Built (u : ModbusUnit) (done : List (Bool × Element)) (t : Tables) : Prop where
  orders : t.floatOrder = u.floatOrder.getD .mswlsw ∧ t.doubleOrder = u.doubleOrder.getD .msdlsd
  valid : t.registers.Valid
  used : ∀ a, t.registers.entries a ≠ none → ∃ x ∈ done, a ∈ u.addrs x.2
  parcookOps : t.parcookOps.length = (paramsOf done).length
  senderOps : t.senderOps.length = (sendsOf done).length
  parcookRegs : ∀ op ∈ t.parcookOps, ∀ reg ∈ op.regs, reg.number < t.registers.made
  senderRegs : ∀ op ∈ t.senderOps, ∀ reg ∈ op.regs, reg.number < t.registers.made
  sent : ∀ r, r ∈ t.sent ↔
    ∃ x ∈ done, x.1 = true ∧ x.2.valType = .value .integer ∧ r ∈ u.regs x.2

theorem built_start (u : ModbusUnit) : u.Built [] u.start := by
  refine ⟨⟨rfl, rfl⟩, fun _ _ h => absurd h.symm (Option.some_ne_none _), fun _ h => absurd rfl h,
    rfl, rfl, fun _ h => absurd h List.not_mem_nil, fun _ h => absurd h List.not_mem_nil,
    fun r => ?_⟩
  simp [start]

theorem parcook_regs {u : ModbusUnit} {e : Element} {op : ParcookOp RegisterObject}
    {registers : Registers} (h : u.ParcookRefers registers e op) :
    op.regs.map some = (u.addrs e).map registers.entries := by
  obtain ⟨doc, hdoc, hop⟩ := h
  rw [addrs_of_some hdoc, ← ParcookOp.regs_map, hop, ParcookOp.regs_map]

theorem sender_addrs_of_some {u : ModbusUnit} {e : Element} {doc : SenderOp ℕ}
    (hdoc : u.documentedSenderOp e = some doc) : u.addrs e = doc.regs := by
  rw [documentedSenderOp] at hdoc
  rw [addrs, documentedParcookOp]
  cases hvalType : e.valType with
  | missing =>
    rw [hvalType] at hdoc
    contradiction
  | invalid =>
    rw [hvalType] at hdoc
    contradiction
  | value valType =>
    rw [hvalType] at hdoc
    cases valType with
    | integer =>
      obtain rfl := Option.some.inj hdoc
      rfl
    | float =>
      obtain rfl := Option.some.inj hdoc
      rfl
    | decimal2 =>
      obtain rfl := Option.some.inj hdoc
      rfl
    | bcd => contradiction
    | long => contradiction
    | double => contradiction
    | decimal3 => contradiction

theorem sender_regs {u : ModbusUnit} {e : Element} {op : SenderOp RegisterObject}
    {registers : Registers} (h : u.SenderRefers registers e op) :
    op.regs.map some = (u.addrs e).map registers.entries := by
  obtain ⟨doc, hdoc, hop⟩ := h
  rw [sender_addrs_of_some hdoc, ← SenderOp.regs_map, hop, SenderOp.regs_map]

theorem paramsOf_append (es es' : List (Bool × Element)) :
    paramsOf (es ++ es') = paramsOf es ++ paramsOf es' := by
  rw [paramsOf, List.filter_append, List.map_append]
  rfl

theorem sendsOf_append (es es' : List (Bool × Element)) :
    sendsOf (es ++ es') = sendsOf es ++ sendsOf es' := by
  rw [sendsOf, List.filter_append, List.map_append]
  rfl

theorem number_lt_of_map {regs : List RegisterObject} {addrs : List ℕ} {registers : Registers}
    (hvalid : registers.Valid) (h : regs.map some = addrs.map registers.entries) :
    ∀ reg ∈ regs, reg.number < registers.made := by
  intro reg hreg
  have hmem : some reg ∈ addrs.map registers.entries := by
    rw [← h]
    exact List.mem_map_of_mem hreg
  obtain ⟨a, -, ha⟩ := List.mem_map.mp hmem
  exact (hvalid a reg ha).2

theorem Built.step {u : ModbusUnit} {done : List (Bool × Element)} {t t' : Tables}
    (h : u.Built done t) {x : Bool × Element} (hx : u.Configures x.1 x.2 t t') :
    u.Built (done ++ [x]) t' := by
  obtain ⟨isSend, e⟩ := x
  have hvalid := h.valid.grows hx.grows
  have hmade : ∀ {n : ℕ}, n < t.registers.made → n < t'.registers.made :=
    fun hn => lt_of_lt_of_le hn hx.grows.made_le
  -- an entry is one of this element or an older one
  have hused : ∀ a, t'.registers.entries a ≠ none → ∃ x ∈ done ++ [(isSend, e)], a ∈ u.addrs x.2 := by
    intro a ha
    by_cases hmem : a ∈ u.addrs e
    · exact ⟨_, List.mem_append_right _ List.mem_cons_self, hmem⟩
    · rw [hx.other a hmem] at ha
      obtain ⟨y, hy, hay⟩ := h.used a ha
      exact ⟨y, List.mem_append_left _ hy, hay⟩
  have hsent : ∀ r, r ∈ t'.sent ↔ ∃ x ∈ done ++ [(isSend, e)],
      x.1 = true ∧ x.2.valType = .value .integer ∧ r ∈ u.regs x.2 := by
    intro r
    rw [hx.sent r, h.sent r]
    constructor
    · rintro (⟨y, hy, hsend⟩ | ⟨hr, hsend, hint⟩)
      · exact ⟨y, List.mem_append_left _ hy, hsend⟩
      · exact ⟨_, List.mem_append_right _ List.mem_cons_self, hsend, hint, hr⟩
    · rintro ⟨y, hy, hsend, hint, hr⟩
      rcases List.mem_append.mp hy with hold | hnew
      · exact Or.inl ⟨y, hold, hsend, hint, hr⟩
      · rw [List.mem_singleton] at hnew
        subst hnew
        exact Or.inr ⟨hr, hsend, hint⟩
  have horders : t'.floatOrder = u.floatOrder.getD .mswlsw ∧
      t'.doubleOrder = u.doubleOrder.getD .msdlsd :=
    ⟨hx.orders.1.trans h.orders.1, hx.orders.2.trans h.orders.2⟩
  -- an operation is put behind those of its kind; the others stay, and so do their registers
  cases isSend with
  | false =>
    obtain ⟨hsender, op, doc, hops, hdoc, hop⟩ := hx.parcook rfl
    refine ⟨horders, hvalid, hused, ?_, ?_, ?_, ?_, hsent⟩
    · rw [hops, paramsOf_append, List.length_append, List.length_append, h.parcookOps]
      rfl
    · rw [hsender, sendsOf_append, List.length_append, h.senderOps]
      rfl
    · intro op' hop' reg hreg
      rw [hops] at hop'
      rcases List.mem_append.mp hop' with hold | hnew
      · exact hmade (h.parcookRegs op' hold reg hreg)
      · obtain rfl := List.mem_singleton.mp hnew
        exact number_lt_of_map hvalid (parcook_regs ⟨doc, hdoc, hop⟩) reg hreg
    · rw [hsender]
      exact fun op' hop' reg hreg => hmade (h.senderRegs op' hop' reg hreg)
  | true =>
    obtain ⟨hparcook, op, doc, hops, hdoc, hop⟩ := hx.sender rfl
    refine ⟨horders, hvalid, hused, ?_, ?_, ?_, ?_, hsent⟩
    · rw [hparcook, paramsOf_append, List.length_append, h.parcookOps]
      rfl
    · rw [hops, sendsOf_append, List.length_append, List.length_append, h.senderOps]
      rfl
    · rw [hparcook]
      exact fun op' hop' reg hreg => hmade (h.parcookRegs op' hop' reg hreg)
    · intro op' hop' reg hreg
      rw [hops] at hop'
      rcases List.mem_append.mp hop' with hold | hnew
      · exact hmade (h.senderRegs op' hold reg hreg)
      · obtain rfl := List.mem_singleton.mp hnew
        exact number_lt_of_map hvalid (sender_regs ⟨doc, hdoc, hop⟩) reg hreg

/-! ## Careful units -/

/-- The operations refer to the registers and the registers of params are received. -/
structure SoundSoFar (u : ModbusUnit) (done : List (Bool × Element)) (t : Tables) : Prop where
  built : u.Built done t
  parcook : List.Forall₂ (u.ParcookRefers t.registers) (paramsOf done) t.parcookOps
  sender : List.Forall₂ (u.SenderRefers t.registers) (sendsOf done) t.senderOps
  received : ∀ x ∈ done, x.1 = false → ∀ r ∈ u.regs x.2, r ∈ t.received

theorem map_congr_parcook {ρ σ : Type} {f g : ρ → σ} {op : ParcookOp ρ}
    (h : ∀ a ∈ op.regs, f a = g a) : op.map f = op.map g := by
  cases op with
  | double regs prec isLsd =>
    exact congrArg (ParcookOp.double · prec isLsd) (List.map_congr_left h)
  | _ => simp_all [ParcookOp.map, ParcookOp.regs]

theorem map_congr_sender {ρ σ : Type} {f g : ρ → σ} {op : SenderOp ρ}
    (h : ∀ a ∈ op.regs, f a = g a) : op.map f = op.map g := by
  cases op with
  | _ => simp_all [SenderOp.map, SenderOp.regs]

theorem parcookRefers_mono {u : ModbusUnit} {registers registers' : Registers} {e : Element}
    {op : ParcookOp RegisterObject} (h : u.ParcookRefers registers e op)
    (hkept : ∀ a ∈ u.addrs e, registers'.entries a = registers.entries a) :
    u.ParcookRefers registers' e op := by
  obtain ⟨doc, hdoc, hop⟩ := h
  rw [addrs_of_some hdoc] at hkept
  exact ⟨doc, hdoc, hop.trans (map_congr_parcook fun a ha => (hkept a ha).symm)⟩

theorem senderRefers_mono {u : ModbusUnit} {registers registers' : Registers} {e : Element}
    {op : SenderOp RegisterObject} (h : u.SenderRefers registers e op)
    (hkept : ∀ a ∈ u.addrs e, registers'.entries a = registers.entries a) :
    u.SenderRefers registers' e op := by
  obtain ⟨doc, hdoc, hop⟩ := h
  rw [sender_addrs_of_some hdoc] at hkept
  exact ⟨doc, hdoc, hop.trans (map_congr_sender fun a ha => (hkept a ha).symm)⟩

theorem entries_of_map {regs : List RegisterObject} {addrs : List ℕ} {registers : Registers}
    (h : regs.map some = addrs.map registers.entries) {a : ℕ} (ha : a ∈ addrs) :
    ∃ reg ∈ regs, registers.entries a = some reg := by
  have hmem : registers.entries a ∈ regs.map some := by
    rw [h]
    exact List.mem_map_of_mem ha
  obtain ⟨reg, hreg, heq⟩ := List.mem_map.mp hmem
  exact ⟨reg, hreg, heq.symm⟩

theorem mem_paramsOf {es : List (Bool × Element)} {e : Element} :
    e ∈ paramsOf es ↔ (false, e) ∈ es := by
  simp [paramsOf]

theorem mem_sendsOf {es : List (Bool × Element)} {e : Element} :
    e ∈ sendsOf es ↔ (true, e) ∈ es := by
  simp [sendsOf]

theorem exists_of_forall₂ {α β : Type} {R : α → β → Prop} {as : List α} {bs : List β}
    (h : List.Forall₂ R as bs) {a : α} (ha : a ∈ as) : ∃ b, (a, b) ∈ as.zip bs ∧ R a b := by
  induction h with
  | nil => exact absurd ha List.not_mem_nil
  | cons hab _ ih =>
    rcases List.mem_cons.mp ha with rfl | hmem
    · exact ⟨_, List.mem_cons_self, hab⟩
    · obtain ⟨b, hb, hrel⟩ := ih hmem
      exact ⟨b, List.mem_cons_of_mem _ hb, hrel⟩

theorem forall₂_imp_of_mem {α β : Type} {R S : α → β → Prop} {as : List α} {bs : List β}
    (h : List.Forall₂ R as bs) (himp : ∀ a ∈ as, ∀ b, R a b → S a b) : List.Forall₂ S as bs := by
  rw [List.forall₂_iff_zip] at h ⊢
  exact ⟨h.1, fun hab => himp _ (List.of_mem_zip hab).1 _ (h.2 hab)⟩

theorem not_makes_cases {u : ModbusUnit} {e : Element} {doc : ParcookOp ℕ}
    (hdoc : u.documentedParcookOp e = some doc) (hmakes : ¬e.Makes) : e.TwoWords ∨ e.Words := by
  rw [documentedParcookOp] at hdoc
  cases hvalType : e.valType with
  | missing =>
    rw [hvalType] at hdoc
    contradiction
  | invalid =>
    rw [hvalType] at hdoc
    contradiction
  | value valType =>
    cases valType with
    | integer => exact absurd (Or.inl hvalType) hmakes
    | bcd => exact absurd (Or.inr hvalType) hmakes
    | long => exact Or.inl (Or.inl hvalType)
    | float => exact Or.inl (Or.inr (Or.inl hvalType))
    | decimal2 => exact Or.inl (Or.inr (Or.inr hvalType))
    | double => exact Or.inr (Or.inl hvalType)
    | decimal3 => exact Or.inr (Or.inr hvalType)

/-- An element that does not take a register away from those before it. -/
theorem SoundSoFar.step {u : ModbusUnit} {done : List (Bool × Element)} {t t' : Tables}
    (h : u.SoundSoFar done t) {x : Bool × Element} (hx : u.Configures x.1 x.2 t t')
    (hown : x.2.Makes → ∀ y ∈ done, ∀ a ∈ u.addrs x.2, a ∉ u.addrs y.2)
    (htypes : ∀ y ∈ done, ∀ a ∈ u.addrs x.2, a ∈ u.addrs y.2 → x.2.type = y.2.type)
    (hparams : x.1 = false → ∀ y ∈ done, y.1 = false) : u.SoundSoFar (done ++ [x]) t' := by
  have hentered : ∀ y ∈ done, ∀ a ∈ u.addrs y.2, t.registers.entries a ≠ none := by
    rintro ⟨isSend, e⟩ hy a ha
    cases isSend with
    | false =>
      obtain ⟨op, -, hop⟩ := exists_of_forall₂ h.parcook (mem_paramsOf.mpr hy)
      obtain ⟨reg, -, hreg⟩ := entries_of_map (parcook_regs hop) ha
      rw [hreg]
      exact Option.some_ne_none reg
    | true =>
      obtain ⟨op, -, hop⟩ := exists_of_forall₂ h.sender (mem_sendsOf.mpr hy)
      obtain ⟨reg, -, hreg⟩ := entries_of_map (sender_regs hop) ha
      rw [hreg]
      exact Option.some_ne_none reg
  have hkept : ∀ y ∈ done, ∀ a ∈ u.addrs y.2,
      t'.registers.entries a = t.registers.entries a := by
    intro y hy a ha
    by_cases hmakes : x.2.Makes
    · exact hx.other a fun hmem => hown hmakes y hy a hmem ha
    · obtain ⟨reg, hreg⟩ := Option.ne_none_iff_exists'.mp (hentered y hy a ha)
      rw [hx.kept hmakes a reg hreg, hreg]
  have hparcook : List.Forall₂ (u.ParcookRefers t'.registers) (paramsOf done) t.parcookOps :=
    forall₂_imp_of_mem h.parcook fun e he op hop =>
      parcookRefers_mono hop (hkept _ (mem_paramsOf.mp he))
  have hsender : List.Forall₂ (u.SenderRefers t'.registers) (sendsOf done) t.senderOps :=
    forall₂_imp_of_mem h.sender fun e he op hop =>
      senderRefers_mono hop (hkept _ (mem_sendsOf.mp he))
  have hold : ∀ r ∈ t.received, r ∈ t'.received := fun r hr => (hx.received r).mpr (Or.inl hr)
  obtain ⟨isSend, e⟩ := x
  cases isSend with
  | true =>
    obtain ⟨hsame, op, doc, hops, hdoc, hop⟩ := hx.sender rfl
    refine ⟨h.built.step hx, ?_, ?_, fun y hy hparam r hr => ?_⟩
    · rw [hsame, paramsOf_append]
      exact (List.append_nil (paramsOf done)).symm ▸ hparcook
    · rw [hops, sendsOf_append]
      exact List.rel_append hsender (.cons ⟨doc, hdoc, hop⟩ .nil)
    · rcases List.mem_append.mp hy with hy | hnew
      · exact hold r (h.received y hy hparam r hr)
      · rw [List.mem_singleton.mp hnew] at hparam
        contradiction
  | false =>
    obtain ⟨hsame, op, doc, hops, hdoc, hop⟩ := hx.parcook rfl
    refine ⟨h.built.step hx, ?_, ?_, fun y hy hparam r hr => ?_⟩
    · rw [hops, paramsOf_append]
      exact List.rel_append hparcook (.cons ⟨doc, hdoc, hop⟩ .nil)
    · rw [hsame, sendsOf_append]
      exact (List.append_nil (sendsOf done)).symm ▸ hsender
    · rcases List.mem_append.mp hy with hy | hnew
      · exact hold r (h.received y hy hparam r hr)
      · rw [List.mem_singleton] at hnew
        subst hnew
        -- a register that is not received now is one of a param before, of the same type
        by_cases hnone : t.registers.entries r.2 = none
        · refine (hx.received r).mpr (Or.inr ⟨hr, ?_⟩)
          by_cases hmakes : e.Makes
          · exact Or.inl ⟨hmakes, rfl⟩
          · exact Or.inr ((not_makes_cases hdoc hmakes).imp_right fun hwords => ⟨hwords, hnone⟩)
        · obtain ⟨y, hy, hay⟩ := h.built.used r.2 hnone
          have htype := htypes y hy r.2 (mem_regs.mp hr).2 hay
          have hry : r ∈ u.regs y.2 := mem_regs.mpr ⟨(mem_regs.mp hr).1.trans htype, hay⟩
          exact hold r (h.received y hy (hparams rfl y hy) r hry)

theorem configureAll_cons {stack : ℕ → Fin 4 → ℕ} {x : Bool × Element}
    {es : List (Bool × Element)} {t t' : Tables} (h : configureAll stack (x :: es) t = some t') :
    ∃ s, t.configureParam stack x.1 x.2 = some s ∧ configureAll stack es s = some t' := by
  rw [configureAll, List.foldlM_cons] at h
  exact Option.bind_eq_some_iff.mp h

/-- Params come before send elements. -/
theorem pairwise_elements (u : ModbusUnit) :
    u.elements.Pairwise fun x y => y.1 = false → x.1 = false := by
  rw [elements, List.pairwise_append]
  refine ⟨?_, ?_, ?_⟩
  · exact List.pairwise_map.mpr (List.pairwise_of_forall fun _ _ _ => rfl)
  · exact List.pairwise_map.mpr (List.pairwise_of_forall fun _ _ h => Bool.noConfusion h)
  · intro x hx y _ _
    obtain ⟨e, -, rfl⟩ := List.mem_map.mp hx
    rfl

theorem regular_of_careful {u : ModbusUnit} (h : u.Careful) {x : Bool × Element}
    (hx : x ∈ u.elements) : Regular x.1 x.2 := by
  rcases mem_elements.mp hx with ⟨hparam, he⟩ | ⟨hsend, he⟩
  · rw [hparam]
    exact h.doubles.1 x.2 he
  · rw [hsend]
    exact h.doubles.2 x.2 he

theorem mem_of_elements {u : ModbusUnit} {x : Bool × Element} (hx : x ∈ u.elements) :
    x.2 ∈ u.params ++ u.sends := by
  rw [← map_snd_elements]
  exact List.mem_map_of_mem hx

theorem soundSoFar_run {u : ModbusUnit} (hcareful : u.Careful) {stack : ℕ → Fin 4 → ℕ}
    {rest done : List (Bool × Element)} (hall : u.elements = done ++ rest) {t t' : Tables}
    (h : u.SoundSoFar done t) (ht : configureAll stack rest t = some t') :
    u.SoundSoFar u.elements t' := by
  induction rest generalizing done t with
  | nil =>
    obtain rfl := Option.some.inj ht
    rwa [hall, List.append_nil]
  | cons x rest ih =>
    obtain ⟨s, hs, ht⟩ := configureAll_cons ht
    have hx : x ∈ u.elements := by
      rw [hall]
      exact List.mem_append_right _ List.mem_cons_self
    have hdone : ∀ y ∈ done, y ∈ u.elements := by
      intro y hy
      rw [hall]
      exact List.mem_append_left _ hy
    have hconfigures : u.Configures x.1 x.2 t s := configures_of_regular h.built.orders.1
      (fun _ => h.built.orders.2) (regular_of_careful hcareful hx) hs
    have hown := hcareful.own
    rw [← map_snd_elements, hall, List.pairwise_map, List.pairwise_append] at hown
    have hparams := u.pairwise_elements
    rw [hall, List.pairwise_append] at hparams
    have hall' : u.elements = done ++ [x] ++ rest := by
      rw [hall, List.append_assoc]
      rfl
    apply ih hall' _ ht
    apply h.step hconfigures
    · exact fun hmakes y hy => hown.2.2 y hy x List.mem_cons_self hmakes
    · exact fun y hy => hcareful.types x.2 (mem_of_elements hx) y.2 (mem_of_elements (hdone y hy))
    · exact fun hparam y hy => hparams.2.2 y hy x List.mem_cons_self hparam

/-- An object of an operation is entered under its address. -/
theorem mem_objects {u : ModbusUnit} {t : Tables}
    (hparcook : List.Forall₂ (u.ParcookRefers t.registers) u.params t.parcookOps)
    (hsender : List.Forall₂ (u.SenderRefers t.registers) u.sends t.senderOps)
    {x : Reg × RegisterObject} (hx : x ∈ u.objects t) :
    (∃ e ∈ u.params ++ u.sends, x.1 ∈ u.regs e) ∧ t.registers.entries x.1.2 = some x.2 := by
  have hentry : ∀ e : Element, ∀ regs : List RegisterObject,
      regs.map some = (u.addrs e).map t.registers.entries → x ∈ (u.regs e).zip regs →
        x.1 ∈ u.regs e ∧ t.registers.entries x.1.2 = some x.2 := by
    intro e regs hregs hzip
    obtain ⟨i, hi⟩ := List.mem_iff_getElem?.mp hzip
    obtain ⟨hreg, hobject⟩ := List.getElem?_zip_eq_some.mp hi
    refine ⟨List.mem_of_getElem? hreg, ?_⟩
    rw [ModbusUnit.regs, List.getElem?_map, Option.map_eq_some_iff] at hreg
    obtain ⟨a, ha, heq⟩ := hreg
    have hboth := congrArg (·[i]?) hregs
    rw [List.getElem?_map, List.getElem?_map, hobject, ha] at hboth
    rw [← heq]
    exact (Option.some.inj hboth).symm
  rcases List.mem_append.mp hx with hx | hx
  · obtain ⟨⟨e, op⟩, hop, hzip⟩ := List.mem_flatMap.mp hx
    obtain ⟨hreg, hentered⟩ := hentry e op.regs (parcook_regs (List.forall₂_zip hparcook hop)) hzip
    exact ⟨⟨e, List.mem_append_left _ (List.of_mem_zip hop).1, hreg⟩, hentered⟩
  · obtain ⟨⟨e, op⟩, hop, hzip⟩ := List.mem_flatMap.mp hx
    obtain ⟨hreg, hentered⟩ := hentry e op.regs (sender_regs (List.forall₂_zip hsender hop)) hzip
    exact ⟨⟨e, List.mem_append_right _ (List.of_mem_zip hop).1, hreg⟩, hentered⟩

theorem sound_of_careful {u : ModbusUnit} (hcareful : u.Careful) {stack : ℕ → Fin 4 → ℕ}
    {t : Tables} (ht : u.configure stack = some t) : u.Sound t := by
  have hstart : u.SoundSoFar [] u.start :=
    ⟨u.built_start, .nil, .nil, fun _ hx => absurd hx List.not_mem_nil⟩
  have h := soundSoFar_run hcareful (List.nil_append _).symm hstart (configure_eq_some ht)
  have hparcook := h.parcook
  have hsender := h.sender
  rw [paramsOf_elements] at hparcook
  rw [sendsOf_elements] at hsender
  refine ⟨hparcook, hsender, fun e he => ?_, fun e he r hr => ?_, fun x hx y hy => ?_⟩
  · exact h.received (false, e) (mem_elements.mpr (Or.inl ⟨rfl, he⟩)) rfl
  · obtain ⟨e', he', hint, hr'⟩ := hcareful.sends e he r hr
    exact (h.built.sent r).mpr ⟨(true, e'), mem_elements.mpr (Or.inr ⟨rfl, he'⟩), rfl, hint, hr'⟩
  · obtain ⟨⟨e, he, hxe⟩, hentry⟩ := mem_objects hparcook hsender hx
    obtain ⟨⟨e', he', hye⟩, hentry'⟩ := mem_objects hparcook hsender hy
    constructor
    · intro hsame
      have haddr : x.1.2 = y.1.2 := by
        rw [← (h.built.valid _ _ hentry).1, ← (h.built.valid _ _ hentry').1, hsame]
      obtain ⟨htype, hmem⟩ := mem_regs.mp hxe
      obtain ⟨htype', hmem'⟩ := mem_regs.mp hye
      rw [haddr] at hmem
      have htypes := hcareful.types e he e' he' _ hmem hmem'
      exact Prod.ext (htype.trans (htypes.trans htype'.symm)) haddr
    · intro hsame
      rw [hsame, hentry'] at hentry
      exact (Option.some.inj hentry).symm

/-! ## Sound units -/

/-- Every register of an element is among the objects. -/
theorem objects_of_mem {u : ModbusUnit} {t : Tables} (h : u.Sound t) {e : Element}
    (he : e ∈ u.params ++ u.sends) {a : ℕ} (ha : a ∈ u.addrs e) :
    ∃ reg, ((e.type, a), reg) ∈ u.objects t ∧ t.registers.entries a = some reg := by
  have hentry : ∀ regs : List RegisterObject,
      regs.map some = (u.addrs e).map t.registers.entries →
        ∃ reg, ((e.type, a), reg) ∈ (u.regs e).zip regs ∧ t.registers.entries a = some reg := by
    intro regs hregs
    obtain ⟨i, hi⟩ := List.mem_iff_getElem?.mp ha
    have hboth := congrArg (·[i]?) hregs
    rw [List.getElem?_map, List.getElem?_map, hi] at hboth
    obtain ⟨reg, hreg, heq⟩ := Option.map_eq_some_iff.mp hboth
    refine ⟨reg, List.mem_of_getElem? (i := i) (List.getElem?_zip_eq_some.mpr ⟨?_, hreg⟩), heq.symm⟩
    rw [ModbusUnit.regs, List.getElem?_map, hi]
    rfl
  rcases List.mem_append.mp he with he | he
  · obtain ⟨op, hop, hrefers⟩ := exists_of_forall₂ h.parcookOps he
    obtain ⟨reg, hreg, hentered⟩ := hentry op.regs (parcook_regs hrefers)
    exact ⟨reg, List.mem_append_left _ (List.mem_flatMap.mpr ⟨_, hop, hreg⟩), hentered⟩
  · obtain ⟨op, hop, hrefers⟩ := exists_of_forall₂ h.senderOps he
    obtain ⟨reg, hreg, hentered⟩ := hentry op.regs (sender_regs hrefers)
    exact ⟨reg, List.mem_append_right _ (List.mem_flatMap.mpr ⟨_, hop, hreg⟩), hentered⟩

theorem types_of_sound {u : ModbusUnit} {t : Tables} (h : u.Sound t) {e e' : Element}
    (he : e ∈ u.params ++ u.sends) (he' : e' ∈ u.params ++ u.sends) {a : ℕ}
    (ha : a ∈ u.addrs e) (ha' : a ∈ u.addrs e') : e.type = e'.type := by
  obtain ⟨reg, hobject, hentry⟩ := objects_of_mem h he ha
  obtain ⟨reg', hobject', hentry'⟩ := objects_of_mem h he' ha'
  have hsame := (h.shared _ hobject _ hobject').mp (Option.some.inj (hentry.symm.trans hentry'))
  exact congrArg Prod.fst hsame

theorem configureAll_later {u : ModbusUnit} {stack : ℕ → Fin 4 → ℕ}
    {es done : List (Bool × Element)} (hregular : ∀ x ∈ es, Regular x.1 x.2) {t t' : Tables}
    (h : u.Built done t) (ht : configureAll stack es t = some t') :
    u.Built (done ++ es) t' ∧ t.registers.Grows t'.registers ∧
      t.parcookOps <+: t'.parcookOps ∧ t.senderOps <+: t'.senderOps := by
  induction es generalizing done t with
  | nil =>
    obtain rfl := Option.some.inj ht
    rw [List.append_nil]
    exact ⟨h, .refl _, List.prefix_refl _, List.prefix_refl _⟩
  | cons x es ih =>
    obtain ⟨s, hs, ht⟩ := configureAll_cons ht
    have hx : u.Configures x.1 x.2 t s := configures_of_regular h.orders.1 (fun _ => h.orders.2)
      (hregular x List.mem_cons_self) hs
    obtain ⟨hbuilt, hgrows, hparcook, hsender⟩ :=
      ih (fun y hy => hregular y (List.mem_cons_of_mem x hy)) (h.step hx) ht
    have hops : t.parcookOps <+: s.parcookOps ∧ t.senderOps <+: s.senderOps := by
      cases hsend : x.1 with
      | false =>
        obtain ⟨hsame, op, doc, heq, -⟩ := hx.parcook hsend
        rw [hsame, heq]
        exact ⟨List.prefix_append _ _, List.prefix_refl _⟩
      | true =>
        obtain ⟨hsame, op, doc, heq, -⟩ := hx.sender hsend
        rw [hsame, heq]
        exact ⟨List.prefix_refl _, List.prefix_append _ _⟩
    rw [List.append_assoc] at hbuilt
    exact ⟨hbuilt, hx.grows.trans hgrows, hops.1.trans hparcook, hops.2.trans hsender⟩

theorem refers_of_prefixed {α β : Type} {R : α → β → Prop} {as as' : List α} {bs bs' : List β}
    (h : List.Forall₂ R (as ++ as') bs') (hprefixed : bs <+: bs') (hlength : bs.length = as.length) :
    List.Forall₂ R as bs := by
  obtain ⟨cs, rfl⟩ := hprefixed
  have htake := List.forall₂_take_append (as ++ as') bs cs h
  rwa [hlength, List.take_left'] at htake
  rfl

/-- An element that has a register made takes it away from those before it. -/
theorem own_of_refers {u : ModbusUnit} {stack : ℕ → Fin 4 → ℕ}
    {rest done : List (Bool × Element)} (hregular : ∀ x ∈ rest, Regular x.1 x.2) {t t' : Tables}
    (h : u.Built done t) (ht : configureAll stack rest t = some t')
    (hparcook : List.Forall₂ (u.ParcookRefers t'.registers) (paramsOf (done ++ rest)) t'.parcookOps)
    (hsender : List.Forall₂ (u.SenderRefers t'.registers) (sendsOf (done ++ rest)) t'.senderOps)
    (hdone : done.Pairwise fun x y => y.2.Makes → ∀ a ∈ u.addrs y.2, a ∉ u.addrs x.2) :
    (done ++ rest).Pairwise fun x y => y.2.Makes → ∀ a ∈ u.addrs y.2, a ∉ u.addrs x.2 := by
  induction rest generalizing done t with
  | nil => rwa [List.append_nil]
  | cons x rest ih =>
    have hlater := (configureAll_later hregular h ht).2
    obtain ⟨s, hs, ht⟩ := configureAll_cons ht
    have hx : u.Configures x.1 x.2 t s := configures_of_regular h.orders.1 (fun _ => h.orders.2)
      (hregular x List.mem_cons_self) hs
    have hregular' : ∀ y ∈ rest, Regular y.1 y.2 :=
      fun y hy => hregular y (List.mem_cons_of_mem x hy)
    have hgrows := (configureAll_later hregular' (h.step hx) ht).2.1
    have hassoc : done ++ x :: rest = done ++ [x] ++ rest := by
      rw [List.append_assoc]
      rfl
    rw [hassoc]
    apply ih hregular' (h.step hx) ht (by rwa [← hassoc]) (by rwa [← hassoc])
    rw [List.pairwise_append]
    refine ⟨hdone, List.pairwise_singleton _ _, fun y hy z hz hmakes a ha hay => ?_⟩
    rw [List.mem_singleton] at hz
    subst hz
    -- the register of the element before is older than the one that has been made
    have hold : ∃ reg, t'.registers.entries a = some reg ∧ reg.number < t.registers.made := by
      obtain ⟨isSend, e⟩ := y
      cases isSend with
      | false =>
        rw [paramsOf_append] at hparcook
        obtain ⟨op, hop, hrefers⟩ := exists_of_forall₂
          (refers_of_prefixed hparcook hlater.2.1 h.parcookOps) (mem_paramsOf.mpr hy)
        obtain ⟨reg, hreg, hentry⟩ := entries_of_map (parcook_regs hrefers) hay
        exact ⟨reg, hentry, h.parcookRegs op (List.of_mem_zip hop).2 reg hreg⟩
      | true =>
        rw [sendsOf_append] at hsender
        obtain ⟨op, hop, hrefers⟩ := exists_of_forall₂
          (refers_of_prefixed hsender hlater.2.2 h.senderOps) (mem_sendsOf.mpr hy)
        obtain ⟨reg, hreg, hentry⟩ := entries_of_map (sender_regs hrefers) hay
        exact ⟨reg, hentry, h.senderRegs op (List.of_mem_zip hop).2 reg hreg⟩
    obtain ⟨reg, hentry, hlt⟩ := hold
    have hge : t.registers.made ≤ reg.number := by
      rcases hgrows.new a reg hentry with hmade | ⟨-, hge, -⟩
      · exact hx.made hmakes a ha reg hmade
      · exact hx.grows.made_le.trans hge
    omega

/-! ## Doubles -/

/-- A double that is sent; it adds an operation for a param. -/
def sentDouble (x : Bool × Element) : Bool := x.1 && x.2.valType = .value .double

/-- The registers of a double with an order of its own are those on the stack. -/
def FromStack (stack : ℕ → Fin 4 → ℕ) (e : Element) (op : ParcookOp RegisterObject) : Prop :=
  e.valType = .value .double → e.doubleOrder = .value .lsdmsd →
    ∃ n, op.regs.map RegisterObject.addr = List.ofFn (stack n)

theorem addr_of_map {regs : List RegisterObject} {addrs : List ℕ} {registers : Registers}
    (hvalid : registers.Valid) (h : regs.map some = addrs.map registers.entries) :
    regs.map RegisterObject.addr = addrs := by
  apply List.ext_getElem?
  intro i
  have hboth := congrArg (·[i]?) h
  rw [List.getElem?_map, List.getElem?_map] at hboth
  rw [List.getElem?_map]
  cases hreg : regs[i]? with
  | none =>
    rw [hreg] at hboth
    exact (Option.map_eq_none_iff.mp hboth.symm).symm
  | some reg =>
    rw [hreg] at hboth
    obtain ⟨a, ha, hentry⟩ := Option.map_eq_some_iff.mp hboth.symm
    rw [ha, ← (hvalid a reg hentry).1]
    rfl

/-- What an element adds to the operations of params, whatever it is. -/
theorem configureParam_parcookOps {u : ModbusUnit} {stack : ℕ → Fin 4 → ℕ} {x : Bool × Element}
    {t t' : Tables} (hfloat : t.floatOrder = u.floatOrder.getD .mswlsw) (hvalid : t.registers.Valid)
    (ht : t.configureParam stack x.1 x.2 = some t') :
    t'.floatOrder = t.floatOrder ∧ t'.registers.Valid ∧
      ((x.1 = false ∨ sentDouble x = true) ∧
          (∃ op, t'.parcookOps = t.parcookOps ++ [op] ∧ FromStack stack x.2 op) ∨
        (x.1 = true ∧ sentDouble x = false) ∧ t'.parcookOps = t.parcookOps) := by
  obtain ⟨isSend, e⟩ := x
  by_cases hvalType : e.valType = .value .double
  · obtain ⟨valType, hvalType', -, hregister⟩ := configureParam_eq_some ht
    obtain rfl := Attr.value.inj (hvalType.symm.trans hvalType')
    obtain ⟨floatOrder, doubleOrder, member, isLsd, regs, registers, received, -, horder, -, rfl,
      hfound, hregs, -⟩ := configureDoubleRegister_eq_some hregister
    have hvalid' : registers.Valid := hvalid.grows hfound.toGrows
    refine ⟨rfl, hvalid', Or.inl ⟨?_, _, rfl, fun _ hown => ⟨t.parcookOps.length, ?_⟩⟩⟩
    · cases isSend <;> simp [sentDouble, hvalType]
    · rw [hown] at horder
      obtain ⟨rfl, -⟩ := Prod.mk.inj (Option.some.inj horder)
      exact addr_of_map hvalid' hregs
  · have hx : u.Configures isSend e t t' :=
      configures_of_regular hfloat (fun h => absurd h hvalType) (fun h => absurd h hvalType) ht
    refine ⟨hx.orders.1, hvalid.grows hx.grows, ?_⟩
    cases isSend with
    | false =>
      obtain ⟨-, op, doc, hops, -⟩ := hx.parcook rfl
      exact Or.inl ⟨Or.inl rfl, op, hops, fun h => absurd h hvalType⟩
    | true =>
      obtain ⟨hsame, -⟩ := hx.sender rfl
      exact Or.inr ⟨⟨rfl, by simp [sentDouble, hvalType]⟩, hsame⟩

theorem configureAll_length {u : ModbusUnit} {stack : ℕ → Fin 4 → ℕ}
    {es : List (Bool × Element)} {t t' : Tables}
    (hfloat : t.floatOrder = u.floatOrder.getD .mswlsw) (hvalid : t.registers.Valid)
    (ht : configureAll stack es t = some t') :
    t'.registers.Valid ∧
      t'.parcookOps.length = t.parcookOps.length + (paramsOf es).length + es.countP sentDouble := by
  induction es generalizing t with
  | nil =>
    obtain rfl := Option.some.inj ht
    exact ⟨hvalid, rfl⟩
  | cons x es ih =>
    obtain ⟨s, hs, ht⟩ := configureAll_cons ht
    obtain ⟨horder, hvalid', hops⟩ := configureParam_parcookOps hfloat hvalid hs
    obtain ⟨hfinal, hlength⟩ := ih (horder.trans hfloat) hvalid' ht
    refine ⟨hfinal, hlength.trans ?_⟩
    have hparams : (paramsOf (x :: es)).length =
        (if x.1 = false then 1 else 0) + (paramsOf es).length := by
      cases hsend : x.1 <;> simp [paramsOf, hsend, Nat.add_comm]
    rw [hparams, List.countP_cons]
    rcases hops with ⟨hadds, op, heq, -⟩ | ⟨⟨hsend, hnot⟩, heq⟩
    · rw [heq, List.length_append, List.length_singleton]
      cases hsend : x.1 with
      | false =>
        have hnot : sentDouble x = false := by simp [sentDouble, hsend]
        simp [hnot]
        omega
      | true =>
        rw [hsend] at hadds
        have hdouble : sentDouble x = true := hadds.resolve_left Bool.noConfusion
        simp [hdouble]
        omega
    · rw [heq]
      simp [hsend, hnot]

theorem configureAll_fromStack {u : ModbusUnit} {stack : ℕ → Fin 4 → ℕ}
    {es : List (Bool × Element)} (hsent : ∀ x ∈ es, sentDouble x = false) {t t' : Tables}
    (hfloat : t.floatOrder = u.floatOrder.getD .mswlsw) (hvalid : t.registers.Valid)
    (ht : configureAll stack es t = some t') :
    ∃ ops, t'.parcookOps = t.parcookOps ++ ops ∧
      List.Forall₂ (FromStack stack) (paramsOf es) ops := by
  induction es generalizing t with
  | nil =>
    obtain rfl := Option.some.inj ht
    exact ⟨[], (List.append_nil _).symm, .nil⟩
  | cons x es ih =>
    obtain ⟨s, hs, ht⟩ := configureAll_cons ht
    obtain ⟨horder, hvalid', hops⟩ := configureParam_parcookOps hfloat hvalid hs
    obtain ⟨ops, heq, hforall⟩ := ih (fun y hy => hsent y (List.mem_cons_of_mem x hy))
      (horder.trans hfloat) hvalid' ht
    have hnot := hsent x List.mem_cons_self
    rcases hops with ⟨hadds, op, hop, hstack⟩ | ⟨⟨hsend, -⟩, hop⟩
    · have hparam : x.1 = false := by
        rcases hadds with hparam | hdouble
        · exact hparam
        · rw [hnot] at hdouble
          contradiction
      refine ⟨op :: ops, ?_, ?_⟩
      · rw [heq, hop, List.append_assoc]
        rfl
      · have hparams : paramsOf (x :: es) = x.2 :: paramsOf es := by simp [paramsOf, hparam]
        rw [hparams]
        exact .cons hstack hforall
    · refine ⟨ops, by rw [heq, hop], ?_⟩
      have hparams : paramsOf (x :: es) = paramsOf es := by simp [paramsOf, hsend]
      rwa [hparams]

theorem doubleWords_ne_zero {u : ModbusUnit} {e : Element} :
    u.doubleWords e ≠ List.ofFn fun _ : Fin 4 => 0 := by
  intro h
  rw [doubleWords] at h
  simp only [List.map_cons, List.ofFn_succ, List.cons.injEq, register] at h
  obtain ⟨h1, h2, -⟩ := h
  cases horder : u.floatOrderOf e with
  | mswlsw =>
    rw [horder] at h1 h2
    simp only [FloatOrder.most, FloatOrder.least] at h1 h2
    omega
  | lswmsw =>
    rw [horder] at h1 h2
    simp only [FloatOrder.most, FloatOrder.least] at h1 h2
    omega

theorem regular_of_sound {u : ModbusUnit} {t : Tables}
    (ht : u.configure (fun _ _ => 0) = some t) (h : u.Sound t) :
    (∀ e ∈ u.params, Regular false e) ∧ ∀ e ∈ u.sends, Regular true e := by
  have hall := configure_eq_some ht
  obtain ⟨hvalid, hlength⟩ := configureAll_length (u := u) rfl u.built_start.valid hall
  have hnone : u.elements.countP sentDouble = 0 := by
    have hops := h.parcookOps.length_eq
    rw [paramsOf_elements] at hlength
    have hstart : u.start.parcookOps.length = 0 := rfl
    omega
  have hsent : ∀ x ∈ u.elements, sentDouble x = false := by
    intro x hx
    have hnot := List.countP_eq_zero.mp hnone x hx
    exact Bool.eq_false_iff.mpr hnot
  obtain ⟨ops, hops, hforall⟩ := configureAll_fromStack hsent rfl u.built_start.valid hall
  rw [paramsOf_elements] at hforall
  have hsame : t.parcookOps = ops := hops
  rw [← hsame] at hforall
  refine ⟨fun e he hdouble => ⟨rfl, fun horder => ?_⟩, fun e he hdouble => ?_⟩
  · obtain ⟨op, hop, hrefers⟩ := exists_of_forall₂ h.parcookOps he
    obtain ⟨_, hstack⟩ := List.forall₂_zip hforall hop hdouble horder
    have haddr := addr_of_map hvalid (parcook_regs hrefers)
    have hdoc : u.documentedParcookOp e =
        some (.double (u.doubleWords e) e.factor (e.valOp2.getD .least = .least)) := by
      rw [documentedParcookOp, hdouble]
    rw [addrs_of_some hdoc, hstack] at haddr
    exact doubleWords_ne_zero haddr.symm
  · have hnot := hsent (true, e) (mem_elements.mpr (Or.inr ⟨rfl, he⟩))
    simp [sentDouble, hdouble] at hnot

theorem careful_of_sound {u : ModbusUnit} {t : Tables}
    (ht : u.configure (fun _ _ => 0) = some t) (h : u.Sound t) : u.Careful := by
  have hdoubles := regular_of_sound ht h
  have hregular : ∀ x ∈ u.elements, Regular x.1 x.2 := by
    intro x hx
    rcases mem_elements.mp hx with ⟨hparam, he⟩ | ⟨hsend, he⟩
    · rw [hparam]
      exact hdoubles.1 x.2 he
    · rw [hsend]
      exact hdoubles.2 x.2 he
  have hall := configure_eq_some ht
  have hbuilt := (configureAll_later hregular u.built_start hall).1
  refine ⟨hdoubles, fun e he e' he' a ha ha' => types_of_sound h he he' ha ha', ?_,
    fun e he r hr => ?_⟩
  · rw [← map_snd_elements, List.pairwise_map]
    apply own_of_refers hregular u.built_start hall _ _ .nil
    · rw [List.nil_append, paramsOf_elements]
      exact h.parcookOps
    · rw [List.nil_append, sendsOf_elements]
      exact h.senderOps
  · obtain ⟨x, hx, hsend, hint, hr'⟩ := (hbuilt.sent r).mp (h.sent e he r hr)
    rcases mem_elements.mp hx with ⟨hparam, -⟩ | ⟨-, hx⟩
    · rw [hsend] at hparam
      contradiction
    · exact ⟨x.2, hx, hint, hr'⟩

/-! ## Accepted units -/

theorem getFloatOrder_accepts {default order : FloatOrder} {attr : Attr FloatOrder}
    (h : getFloatOrder default attr = some order) (default' : FloatOrder) :
    ∃ order', getFloatOrder default' attr = some order' := by
  cases attr with
  | missing => exact ⟨default', rfl⟩
  | value order => exact ⟨order, rfl⟩
  | invalid => contradiction

theorem getDoubleOrder_accepts {default member : DoubleOrder}
    {orders : Option DoubleOrder × DoubleOrder} {attr : Attr DoubleOrder}
    (h : getDoubleOrder default member attr = some orders) (default' : DoubleOrder) :
    ∃ orders', getDoubleOrder default' default' attr = some orders' := by
  cases attr with
  | missing => exact ⟨_, rfl⟩
  | value order => cases order <;> exact ⟨_, rfl⟩
  | invalid => contradiction

theorem getLswMswReg_accepts {order : FloatOrder} {e : Element} {addr : ℕ}
    {words : ℕ × ℕ × Bool} (h : getLswMswReg order e addr = some words) (order' : FloatOrder) :
    ∃ words', getLswMswReg order' e addr = some words' := by
  rw [getLswMswReg] at h
  obtain ⟨own, hown, h⟩ := Option.bind_eq_some_iff.mp h
  obtain ⟨least, hleast, h⟩ := Option.bind_eq_some_iff.mp h
  obtain ⟨own', hown'⟩ := getFloatOrder_accepts hown order'
  rw [getLswMswReg, hown', hleast]
  cases own' <;> exact ⟨_, rfl⟩

/-- Whether an element is accepted does not depend on the tables. -/
theorem configureParam_accepts {stack : ℕ → Fin 4 → ℕ} {isSend : Bool} {e : Element}
    {t t' : Tables} (ht : t.configureParam stack isSend e = some t') (stack' : ℕ → Fin 4 → ℕ)
    (s : Tables) : ∃ s', s.configureParam stack' isSend e = some s' := by
  rw [Tables.configureParam] at ht ⊢
  obtain ⟨addr, haddr, ht⟩ := Option.bind_eq_some_iff.mp ht
  obtain ⟨rt, hrt, ht⟩ := Option.bind_eq_some_iff.mp ht
  obtain ⟨valType, hvalType, ht⟩ := Option.bind_eq_some_iff.mp ht
  obtain ⟨prec, hprec, ht⟩ := Option.bind_eq_some_iff.mp ht
  rw [haddr, hrt, hvalType, hprec]
  change ∃ s', s.configureRegister _ isSend e valType prec addr rt = some s'
  have hlong : ∀ isFloat, t.configureLongFloatRegister isFloat e prec addr isSend rt = some t' →
      ∃ s', s.configureLongFloatRegister isFloat e prec addr isSend rt = some s' := by
    intro isFloat ht
    obtain ⟨words, hwords, ht⟩ := Option.bind_eq_some_iff.mp ht
    obtain ⟨words', hwords'⟩ := getLswMswReg_accepts hwords s.floatOrder
    rw [Tables.configureLongFloatRegister, hwords']
    cases isFloat with
    | true => cases isSend <;> exact ⟨_, rfl⟩
    | false =>
      cases isSend with
      | true => contradiction
      | false => exact ⟨_, rfl⟩
  cases valType with
  | integer => exact ⟨_, rfl⟩
  | bcd =>
    cases isSend with
    | true => contradiction
    | false => exact ⟨_, rfl⟩
  | long => exact hlong false ht
  | float => exact hlong true ht
  | double =>
    obtain ⟨floatOrder, hfloat, ht⟩ := Option.bind_eq_some_iff.mp ht
    obtain ⟨orders, hdouble, ht⟩ := Option.bind_eq_some_iff.mp ht
    obtain ⟨isLsd, hleast, ht⟩ := Option.bind_eq_some_iff.mp ht
    obtain ⟨floatOrder', hfloat'⟩ := getFloatOrder_accepts hfloat s.floatOrder
    obtain ⟨orders', hdouble'⟩ := getDoubleOrder_accepts hdouble s.doubleOrder
    rw [Tables.configureRegister, Tables.configureDoubleRegister, hfloat', hdouble', hleast]
    exact ⟨_, rfl⟩
  | decimal2 =>
    obtain ⟨words, hwords, ht⟩ := Option.bind_eq_some_iff.mp ht
    obtain ⟨words', hwords'⟩ := getLswMswReg_accepts hwords s.floatOrder
    rw [Tables.configureRegister, Tables.configureDecimal2Register, hwords']
    exact ⟨_, rfl⟩
  | decimal3 =>
    cases isSend with
    | true => contradiction
    | false =>
      obtain ⟨isLsw, hleast, -⟩ := Option.bind_eq_some_iff.mp ht
      rw [Tables.configureRegister, Tables.configureDecimal3Register, hleast]
      exact ⟨_, rfl⟩

theorem foldlM_accepts {stack : ℕ → Fin 4 → ℕ} {isSend : Bool} {es : List Element} {t t' : Tables}
    (ht : es.foldlM (Tables.configureParam stack isSend) t = some t') (stack' : ℕ → Fin 4 → ℕ)
    (s : Tables) : ∃ s', es.foldlM (Tables.configureParam stack' isSend) s = some s' := by
  induction es generalizing t s with
  | nil => exact ⟨s, rfl⟩
  | cons e es ih =>
    rw [List.foldlM_cons] at ht
    obtain ⟨t₁, ht₁, ht⟩ := Option.bind_eq_some_iff.mp ht
    obtain ⟨s₁, hs₁⟩ := configureParam_accepts ht₁ stack' s
    obtain ⟨s', hs'⟩ := ih ht s₁
    exact ⟨s', by rw [List.foldlM_cons, hs₁]; exact hs'⟩

theorem configure_accepts {u : ModbusUnit} {stack : ℕ → Fin 4 → ℕ} {t : Tables}
    (ht : u.configure stack = some t) (stack' : ℕ → Fin 4 → ℕ) :
    ∃ t', u.configure stack' = some t' := by
  rw [configure] at ht ⊢
  obtain ⟨floatOrder, hfloat, ht⟩ := Option.bind_eq_some_iff.mp ht
  obtain ⟨orders, hdouble, ht⟩ := Option.bind_eq_some_iff.mp ht
  obtain ⟨t₁, ht₁, ht⟩ := Option.bind_eq_some_iff.mp ht
  rw [hfloat, hdouble]
  obtain ⟨s₁, hs₁⟩ := foldlM_accepts ht₁ stack'
    ⟨floatOrder, orders.1.getD orders.2, ⟨fun _ => none, 0⟩, [], [], [], []⟩
  split at ht
  · contradiction
  · rename_i hsends
    obtain ⟨s₂, hs₂⟩ := foldlM_accepts ht stack' s₁
    refine ⟨s₂, ?_⟩
    refine Option.bind_eq_some_iff.mpr ⟨floatOrder, rfl, ?_⟩
    refine Option.bind_eq_some_iff.mpr ⟨orders, rfl, ?_⟩
    refine Option.bind_eq_some_iff.mpr ⟨s₁, hs₁, ?_⟩
    rw [if_neg hsends]
    exact hs₂

/-- The tables of an accepted unit are what its elements say, whatever is on the stack, when the
elements do not get in each other's way, and only then. -/
theorem sound_iff_careful (u : ModbusUnit) (haccepted : ∃ stack t, u.configure stack = some t) :
    (∀ stack t, u.configure stack = some t → u.Sound t) ↔ u.Careful := by
  constructor
  · intro h
    obtain ⟨stack, t, ht⟩ := haccepted
    obtain ⟨t', ht'⟩ := configure_accepts ht fun _ _ => 0
    exact careful_of_sound ht' (h _ t' ht')
  · exact fun hcareful stack t ht => sound_of_careful hcareful ht

def overlapping : ModbusUnit where
  params :=
    [{ address := .value 10, registerType := .missing, valType := .value .long,
       floatOrder := .missing, doubleOrder := .missing, valOp := .missing, valOp2 := .missing,
       prec := some 1 },
     { address := .value 10, registerType := .missing, valType := .value .integer,
       floatOrder := .missing, doubleOrder := .missing, valOp := .missing, valOp2 := .missing,
       prec := some 1 }]
  sends := []
  floatOrder := .missing
  doubleOrder := .missing

theorem overlapping_sound_iff :
    (∀ stack t, overlapping.configure stack = some t → overlapping.Sound t) ↔
      overlapping.Careful :=
  sound_iff_careful overlapping ⟨fun _ _ => 0, _, rfl⟩

/-- The long value refers to a register that is not entered any more. -/
theorem overlapping_not_sound :
    ∃ t, overlapping.configure (fun _ _ => 0) = some t ∧ ¬overlapping.Sound t := by
  refine ⟨_, rfl, fun h => ?_⟩
  cases h.parcookOps with
  | cons hrefers _ =>
    obtain ⟨doc, hdoc, hop⟩ := hrefers
    obtain rfl := Option.some.inj hdoc
    obtain ⟨-, hmsw, -⟩ := ParcookOp.long.inj hop
    revert hmsw
    decide

end ModbusUnit
end Boruta
end Szarp

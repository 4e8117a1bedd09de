import Genesis.Proofs.Json.Spaced
import Genesis.Proofs.Steps
import Genesis.Traffic

/-! Records and lists are read back from the values that stand for them. -/

namespace Genesis.Json

open Steps

theorem ReadAs.unique {v : Json} {d d' : Draft} (h : ReadAs v d) (h' : ReadAs v d') : d = d' := by
  have hfuel : (v.spaced .none 0).length < (v.spaced .none 0).length + 1 := Nat.lt_succ_self _
  have hread := h.reads ends_nil hfuel
  rw [h'.reads ends_nil hfuel] at hread
  exact (Prod.mk.inj hread).1.symm

namespace Reader

variable {α β : Type} {reader : Reader α} {v : Json} {a : α}

/-- A reader gets `a` out of the text of a value. -/
def Yields (reader : Reader α) (v : Json) (a : α) : Prop := ∃ d, ReadAs v d ∧ reader d = .ok a

theorem Yields.read_line (h : Yields reader v a) : Json.read reader v.line = .ok a := by
  obtain ⟨d, hv, hd⟩ := h
  exact Json.read_line hv hd

theorem Yields.read_lines (h : Yields reader v a) : Json.read reader v.lines = .ok a := by
  obtain ⟨d, hv, hd⟩ := h
  exact Json.read_lines hv hd

section Simple

theorem yields_text (s : String) : Yields text (.string s) s := ⟨_, readAs_string s, rfl⟩

theorem yields_flag (value : Bool) : Yields flag (.bool value) value := ⟨_, readAs_bool value, rfl⟩

theorem yields_amount (n : Int) : Yields amount (.string (Amount.render n)) n := by
  refine ⟨_, readAs_string _, ?_⟩
  have hparse := Amount.parse?_render n
  unfold amount
  refine bind_eq_ok.mpr ⟨Amount.render n, rfl, ?_⟩
  rw [hparse]
  rfl

theorem yields_whole {least greatest n : Int} (hl : least ≤ n) (hg : n ≤ greatest) :
    Yields (whole least greatest) (ofInt n) n := by
  refine ⟨_, readAs_ofInt n, ?_⟩
  unfold whole
  dsimp only
  rw [Numeral.wholeValue_ofInt]
  exact if_pos ⟨hl, hg⟩

theorem yields_word32 (n : UInt32) : Yields word32 (.ofNat n.toNat) n := by
  have hlt : n.toNat < UInt32.size := n.toNat_lt
  have hgreatest : (n.toNat : Int) ≤ UInt32.size - 1 := by omega
  obtain ⟨d, hd, hwhole⟩ := yields_whole (Int.natCast_nonneg n.toNat) hgreatest
  refine ⟨d, hd, bind_eq_ok.mpr ⟨_, hwhole, ?_⟩⟩
  rw [Int.toNat_natCast, UInt32.ofNat_toNat]
  rfl

theorem yields_word64 (n : UInt64) : Yields word64 (.ofNat n.toNat) n := by
  have hlt : n.toNat < UInt64.size := n.toNat_lt
  have hgreatest : (n.toNat : Int) ≤ UInt64.size - 1 := by omega
  obtain ⟨d, hd, hwhole⟩ := yields_whole (Int.natCast_nonneg n.toNat) hgreatest
  refine ⟨d, hd, bind_eq_ok.mpr ⟨_, hwhole, ?_⟩⟩
  rw [Int.toNat_natCast, UInt64.ofNat_toNat]
  rfl

theorem yields_signed64 (n : Int64) : Yields signed64 (.ofInt n.toInt) n := by
  obtain ⟨d, hd, hwhole⟩ := yields_whole n.minValue_le_toInt n.toInt_le
  refine ⟨d, hd, bind_eq_ok.mpr ⟨_, hwhole, ?_⟩⟩
  rw [Int64.ofInt_toInt]
  rfl

theorem readAs_of_yields (h : Yields reader v a) : ∃ d, ReadAs v d :=
  h.imp fun _ hd => hd.1

end Simple

theorem yields_list {item : Reader β} {vs : List Json} {bs : List β}
    (h : List.Forall₂ (Yields item) vs bs) : Yields (list item) (.array vs) bs := by
  obtain ⟨ds, hvs, hds⟩ : ∃ ds, List.Forall₂ ReadAs vs ds ∧
      List.Forall₂ (fun d b => item d = .ok b) ds bs := by
    induction h with
    | nil => exact ⟨[], .nil, .nil⟩
    | cons hv _ ih =>
      obtain ⟨d, hd, hb⟩ := hv
      obtain ⟨ds, hds, hbs⟩ := ih
      exact ⟨d :: ds, .cons hd hds, .cons hb hbs⟩
  exact ⟨_, readAs_array hvs, bind_eq_ok.mpr ⟨bs, mapM_eq_ok.mpr hds, rfl⟩⟩

theorem yields_list_map {item : Reader β} {f : β → Json} (h : ∀ b, Yields item (f b) b)
    (bs : List β) : Yields (list item) (.array (bs.map f)) bs :=
  yields_list (List.forall₂_map_left_iff.mpr (List.forall₂_same.mpr fun b _ => h b))

section Record

variable {fields : List Field} {es : List (String × Draft)} {ms : List (String × Json)}

theorem checkMembers_eq_ok {seen : List String} (hnodup : (es.map (·.1)).Nodup)
    (hseen : ∀ e ∈ es, e.1 ∉ seen) (hwhole : ∀ e ∈ es, isWhole e.2 = true)
    (hcheck : ∀ f ∈ fields, ∀ e ∈ es, f.name = e.1 → f.check e.2 = .ok ()) :
    checkMembers fields seen (es.map fun e => (some e.1, e.2)) = .ok () := by
  induction es generalizing seen with
  | nil => rfl
  | cons e es ih =>
    obtain ⟨hnew, hnodup⟩ := List.nodup_cons.mp hnodup
    obtain ⟨hunseen, hseen⟩ := List.forall_mem_cons.mp hseen
    obtain ⟨hhere, hwhole⟩ := List.forall_mem_cons.mp hwhole
    have hrest : ∀ f ∈ fields, ∀ e' ∈ es, f.name = e'.1 → f.check e'.2 = .ok () :=
      fun f hf e' he' => hcheck f hf e' (List.mem_cons_of_mem e he')
    rw [List.map_cons, checkMembers]
    split
    · rw [if_pos hhere]
      exact ih hnodup hseen hwhole hrest
    · rename_i f hfind
      have hf : f ∈ fields := List.mem_of_find?_eq_some hfind
      have hname : f.name = e.1 := by simpa using List.find?_some hfind
      rw [if_neg (by simpa using hunseen)]
      refine bind_eq_ok.mpr ⟨(), hcheck f hf e List.mem_cons_self hname, ?_⟩
      refine ih hnodup (fun e' he' hmem => ?_) hwhole hrest
      rcases List.mem_cons.mp hmem with heq | hmem
      · exact hnew (List.mem_map.mpr ⟨e', he', heq⟩)
      · exact hseen e' he' hmem

theorem row_eq_ok (hnodup : (es.map (·.1)).Nodup) (hwhole : ∀ e ∈ es, isWhole e.2 = true)
    (hcheck : ∀ f ∈ fields, ∀ e ∈ es, f.name = e.1 → f.check e.2 = .ok ()) :
    row fields (.object (es.map fun e => (some e.1, e.2)) true) = .ok es := by
  have hseen : ∀ e ∈ es, e.1 ∉ ([] : List String) := fun _ _ => List.not_mem_nil
  have hchecked := checkMembers_eq_ok hnodup hseen hwhole hcheck
  refine bind_eq_ok.mpr ⟨(), hchecked, ?_⟩
  rw [if_pos rfl, List.filterMap_map]
  exact congrArg Except.ok ((List.filterMap_congr fun e _ => rfl).trans List.filterMap_some)

theorem lookup_of_mem {name : String} {d : Draft} (hnodup : (es.map (·.1)).Nodup)
    (hmem : (name, d) ∈ es) : es.lookup name = some d := by
  induction es with
  | nil => cases hmem
  | cons e es ih =>
    obtain ⟨key, value⟩ := e
    obtain ⟨hnew, hnodup⟩ := List.nodup_cons.mp hnodup
    rw [List.lookup_cons]
    rcases List.mem_cons.mp hmem with heq | hmem
    · cases heq
      rw [beq_self_eq_true]
    · have hne : (name == key) = false := by
        refine beq_eq_false_iff_ne.mpr fun heq => hnew ?_
        exact List.mem_map.mpr ⟨(name, d), hmem, heq⟩
      rw [hne]
      exact ih hnodup hmem

theorem exists_drafts (h : ∀ m ∈ ms, ∃ d, ReadAs m.2 d) :
    ∃ es : List (String × Draft), List.Forall₂ (fun m e => e.1 = m.1 ∧ ReadAs m.2 e.2) ms es := by
  induction ms with
  | nil => exact ⟨[], .nil⟩
  | cons m ms ih =>
    obtain ⟨⟨d, hd⟩, hrest⟩ := List.forall_mem_cons.mp h
    obtain ⟨es, hes⟩ := ih hrest
    exact ⟨(m.1, d) :: es, .cons ⟨rfl, hd⟩ hes⟩

theorem exists_draft_of_mem (h : List.Forall₂ (fun m e => e.1 = m.1 ∧ ReadAs m.2 e.2) ms es)
    {name : String} {v : Json} (hmem : (name, v) ∈ ms) : ∃ d, (name, d) ∈ es ∧ ReadAs v d := by
  obtain ⟨e, he, hname, hd⟩ := exists_mem_of_forall₂ h.flip hmem
  subst hname
  exact ⟨e.2, he, hd⟩

theorem exists_row (fields : List Field) (ms : List (String × Json))
    (hnodup : (ms.map (·.1)).Nodup) (hread : ∀ m ∈ ms, ∃ d, ReadAs m.2 d)
    (hcheck : ∀ f ∈ fields, ∃ v, (f.name, v) ∈ ms ∧ Yields f.check v ()) :
    ∃ d values, ReadAs (.object ms) d ∧ row fields d = .ok values ∧
      ∀ {β : Type} {name : String} {v : Json} {item : Reader β} {b : β}, (name, v) ∈ ms →
        Yields item v b → fetch values name item = .ok b := by
  obtain ⟨es, hes⟩ := exists_drafts hread
  have hnames : ms.map (·.1) = es.map (·.1) :=
    map_eq_map_of_forall₂ hes fun _ _ h => h.1.symm
  rw [hnames] at hnodup
  have hwhole : ∀ e ∈ es, isWhole e.2 = true := by
    intro e he
    obtain ⟨m, _, _, hd⟩ := exists_mem_of_forall₂ hes he
    exact hd.whole
  have hobject : ReadAs (.object ms) (.object (es.map fun e => (some e.1, e.2)) true) :=
    readAs_object (List.forall₂_map_right_iff.mpr
      (hes.imp fun _ _ h => ⟨congrArg some h.1, h.2⟩))
  refine ⟨_, es, hobject, row_eq_ok hnodup hwhole ?_, ?_⟩
  -- a name stands before one draft only, so what a field checks is the draft of its own value
  · intro f hf e he hname
    obtain ⟨v, hmem, d, hd, hok⟩ := hcheck f hf
    obtain ⟨d', hd', hread'⟩ := exists_draft_of_mem hes hmem
    have heq : some d' = some e.2 := by
      rw [← lookup_of_mem hnodup hd', hname, lookup_of_mem hnodup he]
    rw [← Option.some.inj heq, ← hd.unique hread']
    exact hok
  · intro β name v item b hmem hyields
    obtain ⟨d, hd, hb⟩ := hyields
    obtain ⟨d', hd', hread'⟩ := exists_draft_of_mem hes hmem
    unfold fetch
    rw [lookup_of_mem hnodup hd', ← hd.unique hread']
    exact hb

theorem Yields.field (h : Yields reader v a) (name : String) :
    Yields (field name reader).check v () := by
  obtain ⟨d, hd, ha⟩ := h
  refine ⟨d, hd, ?_⟩
  unfold Reader.field
  dsimp only
  rw [ha]
  rfl

/-- Reads one member of an object, whatever its other members are. -/
def member (name : String) (reader : Reader α) : Reader α := fun d => do
  let values ← row [field name reader] d
  fetch values name reader

theorem yields_member {name : String} (hnodup : (ms.map (·.1)).Nodup)
    (hread : ∀ m ∈ ms, ∃ d, ReadAs m.2 d) (hmem : (name, v) ∈ ms) (h : Yields reader v a) :
    Yields (member name reader) (.object ms) a := by
  obtain ⟨d, values, hd, hrow, hfetch⟩ := exists_row [field name reader] ms hnodup hread
    (List.forall_mem_singleton.mpr ⟨v, hmem, h.field name⟩)
  exact ⟨d, hd, bind_eq_ok.mpr ⟨values, hrow, hfetch hmem h⟩⟩

/-- Reads an object in which the names of the members are not known beforehand. -/
def members (item : Reader α) : Reader (List (String × α))
  | .object members closed => do
    let values ← members.mapM fun (name, value) =>
      match name with
      | none => .error .malformed
      | some name => (item value).map fun a => (name, a)
    if closed then return values else throw .malformed
  | _ => .error .malformed

theorem yields_members {item : Reader β} {bs : List (String × β)}
    (h : List.Forall₂ (fun m b => b.1 = m.1 ∧ Yields item m.2 b.2) ms bs) :
    Yields (members item) (.object ms) bs := by
  obtain ⟨es, hes, hbs⟩ : ∃ es : List (Option String × Draft),
      List.Forall₂ (fun m e => e.1 = some m.1 ∧ ReadAs m.2 e.2) ms es ∧
        List.Forall₂ (fun e b => e.1 = some b.1 ∧ item e.2 = .ok b.2) es bs := by
    induction h with
    | nil => exact ⟨[], .nil, .nil⟩
    | @cons m b ms bs hm _ ih =>
      obtain ⟨hname, d, hd, hb⟩ := hm
      obtain ⟨es, hes, hbs⟩ := ih
      exact ⟨(some m.1, d) :: es, .cons ⟨rfl, hd⟩ hes, .cons ⟨congrArg some hname.symm, hb⟩ hbs⟩
  refine ⟨_, readAs_object hes, bind_eq_ok.mpr ⟨bs, mapM_eq_ok.mpr (hbs.imp ?_), rfl⟩⟩
  rintro ⟨name, value⟩ ⟨name', b⟩ ⟨rfl, hb⟩
  dsimp only at hb ⊢
  rw [hb]
  rfl

end Record

section Entries

/-- A field of a record with the value that stands for it. -/
structure Cell where
  {β : Type}
  name : String
  value : Json
  reader : Reader β
  content : β
  yields : Yields reader value content

def Cell.field (c : Cell) : Field := Reader.field c.name c.reader

def Cell.member (c : Cell) : String × Json := (c.name, c.value)

theorem exists_record (cells : List Cell) (hnodup : (cells.map (·.name)).Nodup) :
    ∃ d values, ReadAs (.object (cells.map Cell.member)) d ∧
      row (cells.map Cell.field) d = .ok values ∧
      ∀ c ∈ cells, fetch values c.name c.reader = .ok c.content := by
  have hnames : (cells.map Cell.member).map (·.1) = cells.map (·.name) := by
    rw [List.map_map]
    rfl
  obtain ⟨d, values, hd, hrow, hfetch⟩ := exists_row (cells.map Cell.field)
    (cells.map Cell.member) (hnames ▸ hnodup)
    (List.forall_mem_map.mpr fun c _ => readAs_of_yields c.yields)
    (List.forall_mem_map.mpr fun c hc => ⟨c.value, List.mem_map_of_mem hc, c.yields.field c.name⟩)
  exact ⟨d, values, hd, hrow, fun c hc => hfetch (List.mem_map_of_mem hc) c.yields⟩

theorem yields_delegation (d : Delegation) : Yields delegation (ofDelegation d) d := by
  obtain ⟨draft, values, hdraft, hrow, hfetch⟩ := exists_record
    [⟨"address", _, text, _, yields_text d.address⟩, ⟨"value", _, amount, _, yields_amount d.value⟩]
    (show ["address", "value"].Nodup by decide)
  simp only [List.forall_mem_cons] at hfetch
  obtain ⟨haddress, hvalue, -⟩ := hfetch
  exact ⟨draft, hdraft, bind_eq_ok.mpr ⟨values, hrow, bind_eq_ok.mpr ⟨_, haddress,
    bind_eq_ok.mpr ⟨_, hvalue, rfl⟩⟩⟩⟩

theorem yields_account (a : Account) : Yields account (ofAccount a) a := by
  obtain ⟨draft, values, hdraft, hrow, hfetch⟩ := exists_record
    [⟨"address", _, text, _, yields_text a.address⟩,
      ⟨"supply", _, amount, _, yields_amount a.supply⟩,
      ⟨"balance", _, amount, _, yields_amount a.balance⟩,
      ⟨"stakingValue", _, amount, _, yields_amount a.stakingValue⟩,
      ⟨"delegation", _, delegation, _, yields_delegation a.delegation⟩]
    (show ["address", "supply", "balance", "stakingValue", "delegation"].Nodup by decide)
  simp only [List.forall_mem_cons] at hfetch
  obtain ⟨haddress, hsupply, hbalance, hstaking, hdelegation, -⟩ := hfetch
  exact ⟨draft, hdraft, bind_eq_ok.mpr ⟨values, hrow, bind_eq_ok.mpr ⟨_, haddress,
    bind_eq_ok.mpr ⟨_, hsupply, bind_eq_ok.mpr ⟨_, hbalance, bind_eq_ok.mpr ⟨_, hstaking,
      bind_eq_ok.mpr ⟨_, hdelegation, rfl⟩⟩⟩⟩⟩⟩⟩

theorem yields_node (n : Node) : Yields node (ofNode n) n := by
  obtain ⟨draft, values, hdraft, hrow, hfetch⟩ := exists_record
    [⟨"pubKey", _, text, _, yields_text n.pubKey⟩, ⟨"address", _, text, _, yields_text n.address⟩,
      ⟨"initialRating", _, word32, _, yields_word32 n.initialRating⟩]
    (show ["pubKey", "address", "initialRating"].Nodup by decide)
  simp only [List.forall_mem_cons] at hfetch
  obtain ⟨hpubKey, haddress, hrating, -⟩ := hfetch
  exact ⟨draft, hdraft, bind_eq_ok.mpr ⟨values, hrow, bind_eq_ok.mpr ⟨_, hpubKey,
    bind_eq_ok.mpr ⟨_, haddress, bind_eq_ok.mpr ⟨_, hrating, rfl⟩⟩⟩⟩⟩

theorem yields_traffic (a : TrafficAccount) : Yields traffic (ofTraffic a) a := by
  obtain ⟨draft, values, hdraft, hrow, hfetch⟩ := exists_record
    [⟨"pubKey", _, text, _, yields_text a.pubKey⟩, ⟨"privKey", _, text, _, yields_text a.privKey⟩,
      ⟨"lastNonce", _, word64, _, yields_word64 a.lastNonce⟩,
      ⟨"balance", _, amount, _, yields_amount a.balance⟩,
      ⟨"tokenBalance", _, amount, _, yields_amount a.tokenBalance⟩,
      ⟨"canReuseNonce", _, flag, _, yields_flag a.canReuseNonce⟩]
    (show ["pubKey", "privKey", "lastNonce", "balance", "tokenBalance", "canReuseNonce"].Nodup
      by decide)
  simp only [List.forall_mem_cons] at hfetch
  obtain ⟨hpubKey, hprivKey, hnonce, hbalance, htoken, hreuse, -⟩ := hfetch
  exact ⟨draft, hdraft, bind_eq_ok.mpr ⟨values, hrow, bind_eq_ok.mpr ⟨_, hpubKey,
    bind_eq_ok.mpr ⟨_, hprivKey, bind_eq_ok.mpr ⟨_, hnonce, bind_eq_ok.mpr ⟨_, hbalance,
      bind_eq_ok.mpr ⟨_, htoken, bind_eq_ok.mpr ⟨_, hreuse, rfl⟩⟩⟩⟩⟩⟩⟩⟩

theorem yields_trafficGroups (groups : TrafficGroups) :
    Yields (members (list traffic)) (ofTrafficGroups groups)
      (groups.map fun g => (Amount.render (g.1 : Int), g.2)) := by
  refine yields_members (List.forall₂_map_left_iff.mpr (List.forall₂_map_right_iff.mpr
    (List.forall₂_same.mpr fun g _ => ⟨rfl, ?_⟩)))
  exact yields_list_map yields_traffic g.2

section Setup

variable {α : Type} {reader : Reader α} {name : String} {v : Json} {a : α}

/-- Every member of a setup can be read by itself, also when its hysteresis cannot. -/
theorem yields_member_setup (s : NodesSetup) {ms : List (String × Json)}
    (hms : ofSetup s = .object ms) (hmem : (name, v) ∈ ms) (h : Yields reader v a) :
    Yields (member name reader) (ofSetup s) a := by
  unfold ofSetup at hms ⊢
  cases hms
  refine yields_member ?_ ?_ hmem h
  · show ["startTime", "roundDuration", "consensusGroupSize", "minNodesPerShard",
      "metaChainConsensusGroupSize", "metaChainMinNodes", "hysteresis", "adaptivity", "chainID",
      "minTransactionVersion", "initialNodes"].Nodup
    decide
  · have hint : ∀ n : Int, ∃ d, ReadAs (ofInt n) d := fun n => ⟨_, readAs_ofInt n⟩
    have hnat : ∀ n : Nat, ∃ d, ReadAs (ofNat n) d := fun n => hint n
    have hnodes := readAs_of_yields (yields_list_map yields_node s.initialNodes)
    have hflag := readAs_of_yields (yields_flag s.config.adaptivity)
    have htext := readAs_of_yields (yields_text s.config.chainId)
    simp [hint, hnat, hnodes, hflag, htext, exists_readAs_ofSingle]

end Setup

end Entries

end Reader

end Genesis.Json

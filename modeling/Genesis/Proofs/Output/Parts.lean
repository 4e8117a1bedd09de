import Genesis.Proofs.Key.Format
import Genesis.Proofs.Output.Writing
import Genesis.Proofs.Traffic.Partition

/-!
The keys of a generation in the order in which they are written: the first that is refused ends the
generation, and what it leaves in each file is what was written until then.
-/

namespace Genesis

open Steps

/-- A key with the form in which it is written, and the role of the file that is written with it. -/
structure KeyEntry where
  role : Role
  format : KeyFormat
  publicKey : Bytes
  privateKey : Bytes

namespace KeyEntry

def entries (role : Role) (format : KeyFormat) (pairs : List (Bytes × Bytes)) : List KeyEntry :=
  pairs.map fun pair => ⟨role, format, pair.1, pair.2⟩

def encode (key : KeyEntry) : Except Error String := key.format.encode key.publicKey

/-- A key has the wrong length, or its form has no text for it. -/
def Refused (key : KeyEntry) : Prop :=
  key.publicKey.length ≠ key.format.size ∨ ∀ text, key.encode ≠ .ok text

def accepted (key : KeyEntry) : Bool := key.encode.isOk

def block (key : KeyEntry) : String :=
  match key.encode with
  | .error _ => ""
  | .ok identifier => Pem.block identifier key.privateKey

/-- The keys before the first that is refused. -/
def written (keys : List KeyEntry) : List KeyEntry := keys.takeWhile accepted

def checkAll (keys : List KeyEntry) : Except Error Unit := keys.forM fun key => discard key.encode

variable {key : KeyEntry} {keys before after : List KeyEntry} {role : Role} {e : Error}

theorem accepted_iff : key.accepted = true ↔ ∃ text, key.encode = .ok text := by
  unfold accepted
  cases key.encode with
  | error e => simp [Except.isOk, Except.toBool]
  | ok text => simp [Except.isOk, Except.toBool]

theorem refused_iff : key.Refused ↔ ¬∃ text, key.encode = .ok text := by
  rw [not_exists]
  refine ⟨fun h => h.elim (fun hsize text htext => ?_) id, .inr⟩
  exact hsize (KeyFormat.length_of_encode htext)

theorem accepted_iff_not_refused : key.accepted = true ↔ ¬key.Refused := by
  rw [accepted_iff, refused_iff, not_not]

theorem checkAll_eq_error_iff : checkAll keys = .error e ↔ FailsFirst encode keys e :=
  forM_discard_eq_error

theorem checkAll_eq_ok_iff : checkAll keys = .ok () ↔ ∀ key ∈ keys, key.accepted = true := by
  have herror : (∃ e, checkAll keys = .error e) ↔ ∃ key ∈ keys, ¬key.accepted = true := by
    simp only [checkAll_eq_error_iff, exists_failsFirst_iff, accepted_iff]
  rcases hend : checkAll keys with e | u
  · refine iff_of_false (fun h => nomatch h) fun hall => ?_
    obtain ⟨key, hkey, hnot⟩ := herror.mp ⟨e, hend⟩
    exact hnot (hall key hkey)
  · refine iff_of_true rfl fun key hkey => ?_
    by_contra hnot
    obtain ⟨e, he⟩ := herror.mpr ⟨key, hkey, hnot⟩
    cases hend.symm.trans he

theorem checkAll_cons : checkAll (key :: keys) = key.encode >>= fun _ => checkAll keys := by
  rw [checkAll, List.forM]
  cases key.encode <;> rfl

theorem block_of_ok {identifier : String} (h : key.encode = .ok identifier) :
    key.block = Pem.block identifier key.privateKey := by
  unfold block
  rw [h]

theorem written_cons_of_ok {identifier : String} (h : key.encode = .ok identifier) :
    written (key :: keys) = key :: written keys :=
  List.takeWhile_cons_of_pos (accepted_iff.mpr ⟨identifier, h⟩)

theorem written_cons_of_error (h : key.encode = .error e) : written (key :: keys) = [] := by
  refine List.takeWhile_cons_of_neg ?_
  rw [accepted_iff, h]
  exact fun ⟨_, h⟩ => nomatch h

theorem checkAll_append :
    checkAll (before ++ after) = checkAll before >>= fun _ => checkAll after :=
  List.forM_append

theorem written_append_of_ok (h : checkAll before = .ok ()) :
    written (before ++ after) = before ++ written after :=
  List.takeWhile_append_of_pos (checkAll_eq_ok_iff.mp h)

theorem written_of_ok (h : checkAll keys = .ok ()) : written keys = keys := by
  rw [← List.append_nil keys, written_append_of_ok h]
  rfl

theorem written_append_of_error (h : checkAll before = .error e) :
    written (before ++ after) = written before := by
  obtain ⟨first, key, rest, rfl, hfirst, hkey⟩ := checkAll_eq_error_iff.mp h
  have haccepted : checkAll first = .ok () :=
    checkAll_eq_ok_iff.mpr fun key hkey => accepted_iff.mpr (hfirst key hkey)
  rw [List.append_assoc, written_append_of_ok haccepted, written_append_of_ok haccepted,
    List.cons_append, written_cons_of_error hkey, written_cons_of_error hkey]

/-- Among keys of other roles, those of one role are written as if they stood alone, or not at all
if a key before them is refused. -/
theorem filter_written (hbefore : ∀ key ∈ before, key.role ≠ role)
    (hkeys : ∀ key ∈ keys, key.role = role) (hafter : ∀ key ∈ after, key.role ≠ role) :
    (written (before ++ (keys ++ after))).filter (·.role = role) =
      if checkAll before = .ok () then written keys else [] := by
  have hnone : ∀ {others : List KeyEntry}, (∀ key ∈ others, key.role ≠ role) →
      (written others).filter (·.role = role) = [] := fun hothers =>
    List.filter_eq_nil_iff.mpr fun key hkey =>
      decide_eq_true_iff.not.mpr (hothers key ((List.takeWhile_sublist _).subset hkey))
  have hall : (written keys).filter (·.role = role) = written keys :=
    List.filter_eq_self.mpr fun key hkey =>
      decide_eq_true (hkeys key ((List.takeWhile_sublist _).subset hkey))
  rcases hcheck : checkAll before with e | u
  · rw [written_append_of_error hcheck, hnone hbefore, if_neg (fun h => nomatch h)]
  · have hstart : before.filter (·.role = role) = [] := by
      rw [← written_of_ok hcheck]
      exact hnone hbefore
    rw [written_append_of_ok hcheck, List.filter_append, hstart, List.nil_append, if_pos rfl]
    -- what follows `keys` is reached only if none of them is refused
    rcases hcheck' : checkAll keys with e | u
    · rw [written_append_of_error hcheck', hall]
    · rw [written_of_ok hcheck'] at hall ⊢
      rw [written_append_of_ok hcheck', List.filter_append, hnone hafter, List.append_nil, hall]

end KeyEntry

/-- The keys of a generation that are written for a role, in order. Those of observers follow those
of validators. -/
def Layout.keysOf (l : Layout) (b : Bundle) (role : Role) : List KeyEntry :=
  match role with
  | .setup | .genesis => []
  | .validators =>
    KeyEntry.entries role l.validatorFormat (Writing.blsPairs (b.validators ++ b.observers))
  | .wallets => KeyEntry.entries role l.walletFormat (Writing.walletPairs b.wallets)
  | .delegators => KeyEntry.entries role l.walletFormat (Writing.walletPairs b.delegators)
  | .traffic => KeyEntry.entries role l.walletFormat (Writing.walletPairs b.additional)

def Layout.keysFor (l : Layout) (b : Bundle) (opened : Role → Bool) (roles : List Role) :
    List KeyEntry :=
  roles.flatMap fun role => if opened role then l.keysOf b role else []

/-- What a generation leaves in the file of a role, if its keys are these: a document in each of
two files, whatever its keys are like, a block for each key before the first that is refused, and
a document with accounts if none is. -/
def Layout.part (l : Layout) (b : Bundle) (keys : List KeyEntry) (role : Role) : String :=
  match role with
  | .setup => (Json.ofSetup { config := l.network, initialNodes := b.nodes }).lines
  | .genesis => (Json.array (b.accounts.map Json.ofAccount)).lines
  | .validators | .wallets | .delegators =>
    String.join (((KeyEntry.written keys).filter (·.role = role)).map KeyEntry.block)
  | .traffic =>
    match TrafficAccount.group l.walletFormat l.coordinator b.additional with
    | .error _ => ""
    | .ok groups =>
      if keys.all KeyEntry.accepted then (Json.ofTrafficGroups groups).lines else ""

section Chunks

variable {l : Layout} {b : Bundle} {role : Role}

theorem KeyFormat.chunk_eq (role : Role) (format : KeyFormat) (pairs : List (Bytes × Bytes)) :
    format.chunk pairs = (KeyEntry.checkAll (KeyEntry.entries role format pairs),
      String.join ((KeyEntry.written (KeyEntry.entries role format pairs)).map
        KeyEntry.block)) := by
  induction pairs with
  | nil => rfl
  | cons pair pairs ih =>
    obtain ⟨publicKey, privateKey⟩ := pair
    have hentries : KeyEntry.entries role format ((publicKey, privateKey) :: pairs) =
        ⟨role, format, publicKey, privateKey⟩ :: KeyEntry.entries role format pairs := rfl
    rw [hentries, KeyEntry.checkAll_cons, chunk]
    rcases hencode : KeyEntry.encode ⟨role, format, publicKey, privateKey⟩ with e | identifier
    · have hformat : format.encode publicKey = .error e := hencode
      rw [hformat, KeyEntry.written_cons_of_error hencode]
      rfl
    · have hformat : format.encode publicKey = .ok identifier := hencode
      rw [hformat, KeyEntry.written_cons_of_ok hencode, List.map_cons, String.join_cons,
        KeyEntry.block_of_ok hencode, ih]
      rfl

theorem Layout.role_of_mem_keysOf {key : KeyEntry} (h : key ∈ l.keysOf b role) :
    key.role = role := by
  cases role
  case setup | genesis => cases h
  all_goals
    obtain ⟨_, _, rfl⟩ := List.mem_map.mp h
    rfl

theorem Layout.checkAll_keysOf (l : Layout) (b : Bundle) (role : Role) :
    KeyEntry.checkAll (l.keysOf b role) = (l.chunk b role).1 := by
  cases role with
  | setup => rfl
  | genesis => rfl
  | validators => exact (congrArg Prod.fst (KeyFormat.chunk_eq .validators _ _)).symm
  | wallets => exact (congrArg Prod.fst (KeyFormat.chunk_eq .wallets _ _)).symm
  | delegators => exact (congrArg Prod.fst (KeyFormat.chunk_eq .delegators _ _)).symm
  | traffic =>
    have herror : ∀ e, KeyEntry.checkAll (l.keysOf b .traffic) = .error e ↔
        TrafficAccount.group l.walletFormat l.coordinator b.additional = .error e := by
      intro e
      rw [KeyEntry.checkAll_eq_error_iff, TrafficAccount.group,
        TrafficAccount.groupInto_eq_error_iff, keysOf, KeyEntry.entries, Writing.walletPairs,
        List.map_map, failsFirst_map]
      rfl
    rw [chunk]
    cases hgroup : TrafficAccount.group l.walletFormat l.coordinator b.additional with
    | error e => exact (herror e).mpr hgroup
    | ok groups =>
      rcases hcheck : KeyEntry.checkAll (l.keysOf b .traffic) with e | u
      · cases hgroup.symm.trans ((herror e).mp hcheck)
      · rfl

end Chunks

namespace Layout

section AddAll

variable {l : Layout} {b : Bundle} {role : Role} {opened : Role → Bool} {texts : Texts}
  {roles before after : List Role}

theorem keysFor_append (l : Layout) (b : Bundle) (opened : Role → Bool) (before after : List Role) :
    l.keysFor b opened (before ++ after) = l.keysFor b opened before ++ l.keysFor b opened after :=
  List.flatMap_append

theorem keysFor_cons (l : Layout) (b : Bundle) (opened : Role → Bool) (role : Role)
    (roles : List Role) : l.keysFor b opened (role :: roles) =
      (if opened role then l.keysOf b role else []) ++ l.keysFor b opened roles :=
  List.flatMap_cons

theorem role_mem_of_mem_keysFor {key : KeyEntry} (h : key ∈ l.keysFor b opened roles) :
    key.role ∈ roles := by
  obtain ⟨role, hrole, hkey⟩ := List.mem_flatMap.mp h
  split at hkey
  · rwa [role_of_mem_keysOf hkey]
  · cases hkey

theorem addAll_fst (hopened : ∀ r, opened r = true ↔ texts.Asks r) :
    (l.addAll b texts roles).1 = KeyEntry.checkAll (l.keysFor b opened roles) := by
  induction roles generalizing texts with
  | nil => rfl
  | cons role roles ih =>
    rw [keysFor_cons, KeyEntry.checkAll_append, addAll]
    by_cases hasks : texts.Asks role
    · rw [if_pos hasks, if_pos ((hopened role).mpr hasks), checkAll_keysOf]
      rcases hchunk : l.chunk b role with ⟨e | u, text⟩
      · rfl
      · exact ih fun r => (hopened r).trans Texts.asks_add.symm
    · rw [if_neg hasks, if_neg (mt (hopened role).mp hasks)]
      exact ih hopened

theorem addAll_append :
    l.addAll b texts (before ++ after) =
      if (l.addAll b texts before).1 = .ok () then
        l.addAll b (l.addAll b texts before).2 after
      else l.addAll b texts before := by
  induction before generalizing texts with
  | nil => exact (if_pos rfl).symm
  | cons role before ih =>
    rw [List.cons_append, addAll, addAll]
    split
    · rcases l.chunk b role with ⟨e | u, text⟩
      · rw [if_neg]
        intro h
        cases h
      · exact ih
    · exact ih

theorem addAll_of_not_mem (h : role ∉ roles) : (l.addAll b texts roles).2 role = texts role := by
  induction roles generalizing texts with
  | nil => rfl
  | cons r roles ih =>
    obtain ⟨hne, hrest⟩ := List.ne_and_not_mem_of_not_mem_cons h
    have hadd : ∀ text, texts.add r text role = texts role := fun text => if_neg hne
    rw [addAll]
    split
    · rcases hchunk : l.chunk b r with ⟨e | u, text⟩
      · exact hadd text
      · exact (ih hrest).trans (hadd text)
    · exact ih hrest

theorem addAll_cons_self (h : role ∉ roles) :
    (l.addAll b texts (role :: roles)).2 role = (texts role).map (· ++ (l.chunk b role).2) := by
  have hadd : ∀ text, texts.add role text role = (texts role).map (· ++ text) :=
    fun text => if_pos rfl
  rw [addAll]
  by_cases hasks : texts.Asks role
  · rw [if_pos hasks]
    rcases hchunk : l.chunk b role with ⟨e | u, text⟩
    · exact hadd text
    · exact (addAll_of_not_mem h).trans (hadd text)
  · rw [if_neg hasks, addAll_of_not_mem h, Texts.eq_none_of_not_asks hasks]
    rfl

theorem addAll_split (hopened : ∀ r, opened r = true ↔ texts.Asks r) (before after : List Role)
    (hbefore : role ∉ before) (hafter : role ∉ after) :
    (l.addAll b texts (before ++ role :: after)).2 role =
      (texts role).map (· ++ if KeyEntry.checkAll (l.keysFor b opened before) = .ok () then
        (l.chunk b role).2 else "") := by
  rw [addAll_append, addAll_fst hopened]
  split_ifs
  · rw [addAll_cons_self hafter, addAll_of_not_mem hbefore]
  · rw [addAll_of_not_mem hbefore]
    simp

theorem addAll_blocks (hopened : ∀ r, opened r = true ↔ texts.Asks r) (before after : List Role)
    (hbefore : role ∉ before) (hafter : role ∉ after)
    (hchunk : (l.chunk b role).2 =
      String.join ((KeyEntry.written (l.keysOf b role)).map KeyEntry.block)) :
    (l.addAll b texts (before ++ role :: after)).2 role =
      (texts role).map (· ++ String.join (((KeyEntry.written
        (l.keysFor b opened (before ++ role :: after))).filter (·.role = role)).map
          KeyEntry.block)) := by
  rw [addAll_split hopened before after hbefore hafter]
  -- without a file there is no text to compare
  cases ht : texts role with
  | none => rfl
  | some old =>
    have hopen : opened role = true := (hopened role).mpr (.inr (Option.isSome_of_eq_some ht))
    have hother : ∀ {others : List Role}, role ∉ others →
        ∀ key ∈ l.keysFor b opened others, key.role ≠ role := fun hnot key hkey heq =>
      hnot (heq ▸ role_mem_of_mem_keysFor hkey)
    rw [keysFor_append, keysFor_cons, if_pos hopen, KeyEntry.filter_written (hother hbefore)
      (fun key => role_of_mem_keysOf) (hother hafter), hchunk]
    split_ifs <;> rfl

/-- Accounts are written last, and only if no key is refused, be it of theirs or of others. -/
theorem addAll_accounts (hopened : ∀ r, opened r = true ↔ texts.Asks r) (before : List Role)
    (hbefore : .traffic ∉ before) :
    (l.addAll b texts (before ++ [.traffic])).2 .traffic =
      (texts .traffic).map
        (· ++ l.part b (l.keysFor b opened (before ++ [.traffic])) .traffic) := by
  rw [addAll_split hopened before [] hbefore List.not_mem_nil]
  cases ht : texts .traffic with
  | none => rfl
  | some old =>
    have hopen : opened .traffic = true := (hopened _).mpr (.inr (Option.isSome_of_eq_some ht))
    have hkeys : l.keysFor b opened (before ++ [.traffic]) =
        l.keysFor b opened before ++ l.keysOf b .traffic := by
      rw [keysFor_append, keysFor_cons, if_pos hopen]
      exact congrArg _ (List.append_nil _)
    have hend := checkAll_keysOf l b .traffic
    rw [hkeys, part]
    rw [chunk] at hend ⊢
    cases hgroup : TrafficAccount.group l.walletFormat l.coordinator b.additional with
    | error e =>
      dsimp only
      rw [ite_self]
    | ok groups =>
      rw [hgroup] at hend
      have hall : (l.keysFor b opened before ++ l.keysOf b .traffic).all KeyEntry.accepted = true ↔
          KeyEntry.checkAll (l.keysFor b opened before) = .ok () := by
        rw [List.all_append, Bool.and_eq_true, List.all_eq_true, List.all_eq_true,
          ← KeyEntry.checkAll_eq_ok_iff, ← KeyEntry.checkAll_eq_ok_iff, and_iff_left hend]
      simp only [hall]

theorem addAll_order_snd (hopened : ∀ r, opened r = true ↔ texts.Asks r) :
    (l.addAll b texts Role.order).2 = fun role =>
      (texts role).map (· ++ l.part b (l.keysFor b opened Role.order) role) := by
  funext role
  cases role with
  | setup =>
    exact addAll_split hopened [] [.genesis, .validators, .wallets, .delegators, .traffic]
      (by decide) (by decide)
  | genesis =>
    refine (addAll_split hopened [.setup] [.validators, .wallets, .delegators, .traffic]
      (by decide) (by decide)).trans ?_
    have hnone : l.keysFor b opened [.setup] = [] := by
      rw [keysFor_cons]
      cases opened .setup <;> rfl
    rw [hnone]
    rfl
  | validators =>
    exact addAll_blocks hopened [.setup, .genesis] [.wallets, .delegators, .traffic]
      (by decide) (by decide) (congrArg Prod.snd (KeyFormat.chunk_eq .validators _ _))
  | wallets =>
    exact addAll_blocks hopened [.setup, .genesis, .validators] [.delegators, .traffic]
      (by decide) (by decide) (congrArg Prod.snd (KeyFormat.chunk_eq .wallets _ _))
  | delegators =>
    exact addAll_blocks hopened [.setup, .genesis, .validators, .wallets] [.traffic]
      (by decide) (by decide) (congrArg Prod.snd (KeyFormat.chunk_eq .delegators _ _))
  | traffic =>
    exact addAll_accounts hopened [.setup, .genesis, .validators, .wallets, .delegators] (by decide)

end AddAll

end Layout

end Genesis

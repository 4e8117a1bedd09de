import Genesis.Proofs.Output.Files

/-!
What writing does to files: which texts are added for a generation, and where it stops if a key
cannot be written.
-/

namespace Genesis

/-- All that the texts of an output depend on besides what was generated. -/
structure Layout where
  validatorFormat : KeyFormat
  walletFormat : KeyFormat
  coordinator : Coordinator
  network : NetworkConfig

def Writer.layout (w : Writer) : Layout :=
  ⟨w.validatorFormat, w.walletFormat, w.coordinator, w.network⟩

abbrev Chunk := Except Error Unit × String

def KeyFormat.chunk (format : KeyFormat) : List (Bytes × Bytes) → Chunk
  | [] => (.ok (), "")
  | (publicKey, privateKey) :: keys =>
    match format.encode publicKey with
    | .error e => (.error e, "")
    | .ok identifier =>
      let (result, text) := format.chunk keys
      (result, Pem.block identifier privateKey ++ text)

def Layout.chunk (l : Layout) (b : Bundle) : Role → Chunk
  | .setup => (.ok (), (Json.ofSetup { config := l.network, initialNodes := b.nodes }).lines)
  | .genesis => (.ok (), (Json.array (b.accounts.map Json.ofAccount)).lines)
  | .validators => l.validatorFormat.chunk (Writing.blsPairs (b.validators ++ b.observers))
  | .wallets => l.walletFormat.chunk (Writing.walletPairs b.wallets)
  | .delegators => l.walletFormat.chunk (Writing.walletPairs b.delegators)
  | .traffic =>
    match TrafficAccount.group l.walletFormat l.coordinator b.additional with
    | .error e => (.error e, "")
    | .ok groups => (.ok (), (Json.ofTrafficGroups groups).lines)

/-- Whether anything is written, or tried to be, for a role: not if it may be left out and is. -/
def Texts.Asks (texts : Texts) (role : Role) : Prop :=
  role ∈ Role.required ∨ (texts role).isSome = true

instance (texts : Texts) (role : Role) : Decidable (texts.Asks role) :=
  inferInstanceAs (Decidable (_ ∨ _))

/-- Writes for one role after the other, up to the first failure. -/
def Layout.addAll (l : Layout) (b : Bundle) (texts : Texts) : List Role → Except Error Unit × Texts
  | [] => (.ok (), texts)
  | role :: roles =>
    if texts.Asks role then
      match l.chunk b role with
      | (.error e, text) => (.error e, texts.add role text)
      | (.ok (), text) => l.addAll b (texts.add role text) roles
    else l.addAll b texts roles

def Role.order : List Role := [.setup, .genesis, .validators, .wallets, .delegators, .traffic]

theorem Role.mem_order (role : Role) : role ∈ Role.order := by cases role <;> decide

theorem Texts.asks_add {texts : Texts} {role r : Role} {text : String} :
    (texts.add role text).Asks r ↔ texts.Asks r := by
  unfold Texts.Asks
  rw [Texts.isSome_add]

section AddAll

variable {l : Layout} {b : Bundle} {texts : Texts} {roles : List Role}

theorem Texts.eq_none_of_not_asks {role : Role} (h : ¬texts.Asks role) : texts role = none := by
  simpa using (not_or.mp h).2

theorem Layout.addAll_of_ok (hnodup : roles.Nodup)
    (h : ∀ role ∈ roles, texts.Asks role → (l.chunk b role).1 = .ok ()) :
    l.addAll b texts roles = (.ok (), fun r =>
      if r ∈ roles then (texts r).map (· ++ (l.chunk b r).2) else texts r) := by
  induction roles generalizing texts with
  | nil => rfl
  | cons role roles ih =>
    obtain ⟨hnew, hnodup⟩ := List.nodup_cons.mp hnodup
    obtain ⟨hhere, hrest⟩ := List.forall_mem_cons.mp h
    rw [Layout.addAll]
    split
    · rename_i hasks
      have hchunk : l.chunk b role = (.ok (), (l.chunk b role).2) := Prod.ext (hhere hasks) rfl
      rw [hchunk]
      dsimp only
      rw [ih hnodup fun r hr hr' => hrest r hr (Texts.asks_add.mp hr')]
      refine Prod.ext rfl (funext fun r => ?_)
      by_cases hr : r = role
      · subst hr
        simp [hnew, Texts.add]
      · simp [hr, Texts.add]
    · rename_i hasks
      rw [ih hnodup hrest]
      refine Prod.ext rfl (funext fun r => ?_)
      by_cases hr : r = role
      · subst hr
        simp [Texts.eq_none_of_not_asks hasks]
      · simp [hr]

theorem Layout.chunk_of_addAll (h : (l.addAll b texts roles).1 = .ok ()) :
    ∀ role ∈ roles, texts.Asks role → (l.chunk b role).1 = .ok () := by
  induction roles generalizing texts with
  | nil => exact fun role hrole => by cases hrole
  | cons role roles ih =>
    rw [Layout.addAll] at h
    refine List.forall_mem_cons.mpr ⟨fun hasks => ?_, fun r hr hasks => ?_⟩
    · rw [if_pos hasks] at h
      rcases hchunk : l.chunk b role with ⟨e | u, text⟩
      · rw [hchunk] at h
        cases h
      · rfl
    · split at h
      · split at h
        · cases h
        · exact ih h r hr (Texts.asks_add.mpr hasks)
      · exact ih h r hr hasks

theorem Layout.addAll_order (h : ∀ role, texts.Asks role → (l.chunk b role).1 = .ok ()) :
    l.addAll b texts Role.order = (.ok (), fun r => (texts r).map (· ++ (l.chunk b r).2)) := by
  rw [Layout.addAll_of_ok (by decide) fun role _ => h role]
  simp only [Role.mem_order, if_true]

theorem OpenFiles.Show.isNone_of_asks {files : OpenFiles} {t : FileTree} {place : Role → Path}
    {role : Role} (h : files.Show t place texts) (hasks : texts.Asks role)
    (hoptional : role ∉ Role.required) : (files role).isNone = false := by
  rw [h.isNone_eq, Option.isNone_eq_false_iff]
  exact hasks.resolve_left hoptional

theorem OpenFiles.Show.isNone_of_not_asks {files : OpenFiles} {t : FileTree} {place : Role → Path}
    {role : Role} (h : files.Show t place texts) (hasks : ¬texts.Asks role) :
    (files role).isNone = true := by
  rw [h.isNone_eq, Texts.eq_none_of_not_asks hasks]
  rfl

end AddAll

/-- A desk on which all files stand at these places, with these texts. -/
structure Desk.Shows (desk : Desk) (l : Layout) (place : Role → Path) (texts : Texts) : Prop where
  layout : desk.writer.layout = l
  files : desk.writer.files.Show desk.tree place texts

namespace Writing

variable {α β : Type} {l : Layout} {place : Role → Path} {texts texts' texts'' : Texts}

/-- From any desk with these texts, `x` comes to a result and leaves other ones. -/
def Does (l : Layout) (place : Role → Path) (texts : Texts) (x : Writing α)
    (result : Except Error α) (texts' : Texts) : Prop :=
  ∀ desk : Desk, desk.Shows l place texts →
    ∃ desk', x.run desk = (result, desk') ∧ desk'.Shows l place texts'

theorem does_pure (a : α) : Does l place texts (pure a) (.ok a) texts :=
  fun desk h => ⟨desk, rfl, h⟩

theorem does_throw (e : Error) : Does (α := α) l place texts (throw e) (.error e) texts :=
  fun desk h => ⟨desk, rfl, h⟩

theorem does_bind {x : Writing α} {f : α → Writing β} {a : α} {result : Except Error β}
    (hx : Does l place texts x (.ok a) texts') (hf : Does l place texts' (f a) result texts'') :
    Does l place texts (x >>= f) result texts'' := by
  intro desk h
  obtain ⟨desk', hrun, h'⟩ := hx desk h
  obtain ⟨desk'', hrun', h''⟩ := hf desk' h'
  refine ⟨desk'', ?_, h''⟩
  rw [ExceptT.run_bind]
  simp only [bind, StateT.bind, hrun]
  exact hrun'

theorem does_bind_error {x : Writing α} {f : α → Writing β} {e : Error}
    (hx : Does l place texts x (.error e) texts') :
    Does l place texts (x >>= f) (.error e) texts' := by
  intro desk h
  obtain ⟨desk', hrun, h'⟩ := hx desk h
  refine ⟨desk', ?_, h'⟩
  rw [ExceptT.run_bind]
  simp only [bind, StateT.bind, hrun]
  rfl

theorem does_get {f : Desk → Writing β} {result : Except Error β}
    (hf : ∀ desk : Desk, desk.Shows l place texts → Does l place texts (f desk) result texts') :
    Does l place texts (get >>= f) result texts' :=
  fun desk h => hf desk h desk h

theorem does_report (event : Event) : Does l place texts (report event) (.ok ()) texts :=
  fun desk h => ⟨{ desk with journal := desk.journal ++ [event] }, rfl, h.layout, h.files⟩

theorem does_put (role : Role) (text : String) :
    Does l place texts (put role text) (.ok ()) (texts.add role text) := by
  intro desk h
  refine ⟨_, rfl, ?_⟩
  cases ht : texts role with
  | none =>
    have hfile := h.files.absent role ht
    dsimp only
    rw [hfile, Texts.add_of_none ht]
    exact h
  | some old =>
    obtain ⟨handle, hfile, hpath, hend⟩ := h.files.shown role old ht
    have hpath' : (handle.write text desk.tree).1.path = place role :=
      (handle.write_path text desk.tree).trans hpath
    have hapart : ∀ r, (texts r).isSome → place r = place role → r = role :=
      fun r hr heq => h.files.apart r role hr (Option.isSome_of_eq_some ht) heq
    dsimp only
    rw [hfile]
    refine ⟨h.layout, ?_⟩
    have hset := h.files.set hpath' hapart (hend.write text) fun q hq =>
      FileHandle.get?_write_of_ne (handle.write_path text desk.tree ▸ hq) text desk.tree
    convert hset using 2 with r
    unfold Texts.add
    split
    · rename_i hr
      rw [hr, ht]
      rfl
    · rfl

theorem does_putKeys (role : Role) (format : KeyFormat) (keys : List (Bytes × Bytes))
    (texts : Texts) :
    Does l place texts (putKeys role format keys) (format.chunk keys).1
      (texts.add role (format.chunk keys).2) := by
  induction keys generalizing texts with
  | nil =>
    rw [KeyFormat.chunk, Texts.add_empty]
    exact does_pure ()
  | cons key keys ih =>
    obtain ⟨publicKey, privateKey⟩ := key
    unfold putKeys at ih ⊢
    rw [List.forM, KeyFormat.chunk]
    cases hencode : format.encode publicKey with
    | error e =>
      have hthrow : Does (α := String) l place texts (liftM (format.encode publicKey))
          (.error e) texts := by
        rw [hencode]
        exact does_throw e
      dsimp only
      rw [Texts.add_empty]
      exact does_bind_error (does_bind_error hthrow)
    | ok identifier =>
      have hpure : Does (α := String) l place texts (liftM (format.encode publicKey))
          (.ok identifier) texts := by
        rw [hencode]
        exact does_pure identifier
      have hblock : Does l place texts
          (do
            let identifier ← liftM (format.encode publicKey)
            put role (Pem.block identifier privateKey))
          (.ok ()) (texts.add role (Pem.block identifier privateKey)) :=
        does_bind hpure (does_put role (Pem.block identifier privateKey))
      have hrest := ih (texts.add role (Pem.block identifier privateKey))
      rw [Texts.add_add] at hrest
      exact does_bind hblock hrest

variable {b : Bundle} {roles : List Role}

theorem does_putSetup (b : Bundle) (texts : Texts) :
    Does l place texts (putSetup b.nodes) (l.chunk b .setup).1
      (texts.add .setup (l.chunk b .setup).2) := by
  refine does_get fun desk h => ?_
  have hnetwork : desk.writer.network = l.network := congrArg Layout.network h.layout
  rw [hnetwork]
  exact does_put .setup _

theorem does_putGenesis (b : Bundle) (texts : Texts) :
    Does l place texts (putGenesis b.accounts) (l.chunk b .genesis).1
      (texts.add .genesis (l.chunk b .genesis).2) :=
  does_put .genesis _

theorem does_putDelegators (b : Bundle) (h : texts.Asks .delegators) :
    Does l place texts (putDelegators b.delegators) (l.chunk b .delegators).1
      (texts.add .delegators (l.chunk b .delegators).2) := by
  refine does_get fun desk hdesk => ?_
  have hformat : desk.writer.walletFormat = l.walletFormat :=
    congrArg Layout.walletFormat hdesk.layout
  dsimp only
  rw [hdesk.files.isNone_of_asks h (by decide), hformat]
  exact does_putKeys .delegators l.walletFormat (walletPairs b.delegators) texts

theorem does_skipDelegators (b : Bundle) (h : ¬texts.Asks .delegators) :
    Does l place texts (putDelegators b.delegators) (.ok ()) texts := by
  refine does_get fun desk hdesk => ?_
  dsimp only
  rw [hdesk.files.isNone_of_not_asks h]
  exact does_report _

theorem does_putTraffic (b : Bundle) (h : texts.Asks .traffic) :
    Does l place texts (putTraffic b.additional) (l.chunk b .traffic).1
      (texts.add .traffic (l.chunk b .traffic).2) := by
  refine does_get fun desk hdesk => ?_
  have hformat : desk.writer.walletFormat = l.walletFormat :=
    congrArg Layout.walletFormat hdesk.layout
  have hcoordinator : desk.writer.coordinator = l.coordinator :=
    congrArg Layout.coordinator hdesk.layout
  dsimp only
  rw [hdesk.files.isNone_of_asks h (by decide), hformat, hcoordinator, Layout.chunk]
  cases hgroup : TrafficAccount.group l.walletFormat l.coordinator b.additional with
  | error e =>
    dsimp only
    rw [Texts.add_empty]
    exact does_bind_error (does_throw e)
  | ok groups => exact does_bind (does_pure groups) (does_put .traffic _)

theorem does_skipTraffic (b : Bundle) (h : ¬texts.Asks .traffic) :
    Does l place texts (putTraffic b.additional) (.ok ()) texts := by
  refine does_get fun desk hdesk => ?_
  dsimp only
  rw [hdesk.files.isNone_of_not_asks h]
  exact does_report _

theorem does_addAll_cons {x y : Writing Unit} {role : Role}
    (hasked : texts.Asks role → Does l place texts x (l.chunk b role).1
      (texts.add role (l.chunk b role).2))
    (hskipped : ¬texts.Asks role → Does l place texts x (.ok ()) texts)
    (hy : ∀ texts, Does l place texts y (l.addAll b texts roles).1 (l.addAll b texts roles).2) :
    Does l place texts (x >>= fun _ => y) (l.addAll b texts (role :: roles)).1
      (l.addAll b texts (role :: roles)).2 := by
  rw [Layout.addAll]
  split
  · rename_i h
    have hx := hasked h
    rcases hchunk : l.chunk b role with ⟨e | u, text⟩
    · rw [hchunk] at hx
      exact does_bind_error hx
    · rw [hchunk] at hx
      exact does_bind hx (hy _)
  · rename_i h
    exact does_bind (hskipped h) (hy texts)

theorem does_putBundle (b : Bundle) (texts : Texts) :
    Does l place texts (putBundle b) (l.addAll b texts Role.order).1
      (l.addAll b texts Role.order).2 := by
  have hasks : ∀ {role : Role}, role ∈ Role.required → ∀ texts : Texts, texts.Asks role :=
    fun h _ => .inl h
  unfold putBundle
  refine does_get fun desk hdesk => ?_
  have hvalidators : desk.writer.validatorFormat = l.validatorFormat :=
    congrArg Layout.validatorFormat hdesk.layout
  have hwallets : desk.writer.walletFormat = l.walletFormat :=
    congrArg Layout.walletFormat hdesk.layout
  dsimp only
  rw [hvalidators, hwallets]
  refine does_addAll_cons (fun _ => does_putSetup b _)
    (fun h => absurd (hasks (by decide) _) h) fun texts => ?_
  refine does_addAll_cons (fun _ => does_putGenesis b _)
    (fun h => absurd (hasks (by decide) _) h) fun texts => ?_
  refine does_addAll_cons (fun _ => does_putKeys .validators _ _ _)
    (fun h => absurd (hasks (by decide) _) h) fun texts => ?_
  refine does_addAll_cons (fun _ => does_putKeys .wallets _ _ _)
    (fun h => absurd (hasks (by decide) _) h) fun texts => ?_
  refine does_addAll_cons (does_putDelegators b) (does_skipDelegators b) fun texts => ?_
  refine does_addAll_cons (does_putTraffic b) (does_skipTraffic b) fun texts => ?_
  exact does_report _

end Writing

theorem OutputParts.mem_roles_of_required (traffic delegators : Bool) :
    ∀ role ∈ Role.required, role ∈ roles traffic delegators := by
  cases traffic <;> cases delegators <;> decide

def Texts.fresh (traffic delegators : Bool) : Texts := fun role =>
  if role ∈ OutputParts.roles traffic delegators then some "" else none

theorem Texts.asks_fresh {traffic delegators : Bool} {role : Role} :
    (fresh traffic delegators).Asks role ↔ role ∈ OutputParts.roles traffic delegators := by
  refine ⟨fun h => h.elim (OutputParts.mem_roles_of_required traffic delegators role) fun h => ?_,
    fun h => .inr (by rw [fresh, if_pos h]; rfl)⟩
  by_contra hrole
  rw [fresh, if_neg hrole] at h
  cases h

def Layout.Complete (l : Layout) (b : Bundle) (t : FileTree) (folder : Path) (roles : List Role) :
    Prop :=
  ∀ role ∈ roles, (l.chunk b role).1 = .ok () ∧
    t.text? (folder ++ [role.fileName]) = some (l.chunk b role).2

theorem Layout.addAll_fresh {l : Layout} {b : Bundle} {traffic delegators : Bool} {role : Role}
    (h : (l.addAll b (.fresh traffic delegators) Role.order).1 = .ok ())
    (hrole : role ∈ OutputParts.roles traffic delegators) :
    (l.addAll b (.fresh traffic delegators) Role.order).2 role = some (l.chunk b role).2 := by
  have hfresh : Texts.fresh traffic delegators role = some "" := if_pos hrole
  rw [addAll_order fun r => chunk_of_addAll h r r.mem_order]
  dsimp only
  rw [hfresh, Option.map_some, String.empty_append]

theorem Layout.complete_of_show {l : Layout} {b : Bundle} {files : OpenFiles} {t : FileTree}
    {folder : Path} {traffic delegators : Bool}
    (h : files.Show t (Role.placeIn folder) (l.addAll b (.fresh traffic delegators) Role.order).2)
    (hchunks : ∀ role, (Texts.fresh traffic delegators).Asks role →
      (l.chunk b role).1 = .ok ()) :
    l.Complete b t folder (OutputParts.roles traffic delegators) := by
  have hresult : (l.addAll b (.fresh traffic delegators) Role.order).1 = .ok () :=
    congrArg Prod.fst (addAll_order hchunks)
  exact fun role hrole =>
    ⟨hchunks role (Texts.asks_fresh.mpr hrole), h.text?_eq (addAll_fresh hresult hrole)⟩

namespace OutputParts

variable {way : Path} {validatorFormat walletFormat : KeyFormat} {coordinator : Coordinator}
  {traffic delegators : Bool} {network : NetworkConfig} {t t' : FileTree} {parts : OutputParts}

theorem create_ok
    (h : create way validatorFormat walletFormat coordinator traffic delegators network t =
      (.ok parts, t')) :
    ∃ writer, Writer.ofParts? parts = .ok writer ∧
      Desk.Shows { writer, tree := t' } ⟨validatorFormat, walletFormat, coordinator, network⟩
        (Role.placeIn way.reached) (.fresh traffic delegators) := by
  unfold create at h
  split at h
  · cases h
  · rename_i files t₁ hcreate
    cases h
    have hshow := OpenFiles.createAll_ok (OpenFiles.show_empty t (Role.placeIn way.reached)) hcreate
    have hpresent : ∀ role ∈ Role.required, ∃ handle, files role = some handle := by
      intro role hrole
      have hmem := mem_roles_of_required traffic delegators role hrole
      obtain ⟨handle, hfile, _⟩ := hshow.shown role "" (if_pos hmem)
      exact ⟨handle, hfile⟩
    refine ⟨⟨files, validatorFormat, walletFormat, coordinator, network⟩, ?_, rfl, hshow⟩
    simp only [Role.required, List.forall_mem_cons] at hpresent
    obtain ⟨⟨_, hwallets⟩, ⟨_, hvalidators⟩, ⟨_, hgenesis⟩, ⟨_, hsetup⟩, -⟩ := hpresent
    simp [Writer.ofParts?, Role.required, hwallets, hvalidators, hgenesis, hsetup]
    rfl

theorem exists_run_putBundle (b : Bundle)
    (h : create way validatorFormat walletFormat coordinator traffic delegators network t =
      (.ok parts, t')) :
    ∃ writer desk, Writer.ofParts? parts = .ok writer ∧
      (Writing.putBundle b).run { writer, tree := t' } =
        ((Layout.addAll ⟨validatorFormat, walletFormat, coordinator, network⟩ b
          (.fresh traffic delegators) Role.order).1, desk) ∧
      desk.writer.files.Show desk.tree (Role.placeIn way.reached)
        (Layout.addAll ⟨validatorFormat, walletFormat, coordinator, network⟩ b
          (.fresh traffic delegators) Role.order).2 := by
  obtain ⟨writer, hwriter, hshows⟩ := create_ok h
  obtain ⟨desk, hrun, hdesk⟩ := Writing.does_putBundle b _ _ hshows
  exact ⟨writer, desk, hwriter, hrun, hdesk.files⟩

section Written

variable {b : Bundle} {writer : Writer} {desk : Desk}

theorem show_of_putBundle
    (h : create way validatorFormat walletFormat coordinator traffic delegators network t =
      (.ok parts, t'))
    (hwriter : Writer.ofParts? parts = .ok writer)
    (hrun : (Writing.putBundle b).run { writer, tree := t' } = (.ok (), desk)) :
    (Layout.addAll ⟨validatorFormat, walletFormat, coordinator, network⟩ b
        (.fresh traffic delegators) Role.order).1 = .ok () ∧
      desk.writer.files.Show desk.tree (Role.placeIn way.reached)
        (Layout.addAll ⟨validatorFormat, walletFormat, coordinator, network⟩ b
          (.fresh traffic delegators) Role.order).2 := by
  obtain ⟨writer', desk', hwriter', hrun', hshow⟩ := exists_run_putBundle b h
  obtain rfl : writer = writer' := Except.ok.inj (hwriter.symm.trans hwriter')
  obtain ⟨hresult, rfl⟩ := Prod.mk.inj (hrun'.symm.trans hrun)
  exact ⟨hresult, hshow⟩

theorem complete_of_putBundle
    (h : create way validatorFormat walletFormat coordinator traffic delegators network t =
      (.ok parts, t'))
    (hwriter : Writer.ofParts? parts = .ok writer)
    (hrun : (Writing.putBundle b).run { writer, tree := t' } = (.ok (), desk)) :
    (Layout.mk validatorFormat walletFormat coordinator network).Complete b desk.tree way.reached
      (roles traffic delegators) := by
  obtain ⟨hresult, hshow⟩ := show_of_putBundle h hwriter hrun
  exact Layout.complete_of_show hshow fun role =>
    Layout.chunk_of_addAll hresult role role.mem_order

end Written

end OutputParts

end Genesis

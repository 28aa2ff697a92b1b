/-
Module: ExitfyCores.Proofs.ReadyDraft
Layer: Proofs
Purpose: `verified_ready_draft` tells a draft that is still appearing from one that can never be accepted.
Imports: ExitfyCores.Release.ReadyDraft
Trusted boundary: none
Main exports: SoundDraft, Complete, IsReadyDraft, verifiedDraft_eq_ok, verifiedReadyDraft_cases, sound_of_appears,
  exists_catchesUp, readyDraftStates
Open obligations: none
-/
import ExitfyCores.Release.ReadyDraft

namespace ExitfyCores.Release

open Py

/-! ### Sound and complete drafts -/

/-- The releases of a tag. -/
def tagged (tag : Text) (releases : List Object) : List Object := releases.filter (named tag)

/-- The id of an asset whose id is sound. -/
def assetId (asset : Value) : Nat := (asset.get "id").positiveInt.getD 0

/-- A draft with the right identity and provenance. -/
structure SoundDraft (commit : Text) (draft : Object) (assets : List Value) : Prop where
  state : draft.get "draft" = .bool true
  notPrerelease : draft.get "prerelease" = .bool false
  target : draft.get "target_commitish" = .str commit
  id : (draft.get "id").positiveInt.isSome
  shown : draft.get "assets" = .list assets
  ids : ∀ asset ∈ assets, (asset.get "id").positiveInt.isSome
  distinctIds : (assets.map assetId).Nodup

/-- Assets of which none is foreign or there twice. -/
structure SoundAssets (expected : List Text) (assets : List Value) : Prop where
  names : ∀ asset ∈ assets, ∃ name ∈ expected, asset.get "name" = .str name
  distinctNames : (assets.map assetName).Nodup

/-- Every expected asset is there with its size and its digest. -/
structure Complete (expected : List Text) (assets : List Value) : Prop where
  present : ∀ name ∈ expected, ∃ asset ∈ assets, asset.get "name" = .str name
  metadata : ∀ asset ∈ assets, metadataReady asset = true

/-- The one release of the tag, a draft that lacks nothing. -/
def IsReadyDraft (tag commit : Text) (expected : List Text) (releases : List Object) (draft : Object) : Prop :=
  tagged tag releases = [draft] ∧
    ∃ assets, SoundDraft commit draft assets ∧ SoundAssets expected assets ∧ Complete expected assets

/-- Nothing that is there stands against acceptance. -/
def Sound (tag commit : Text) (expected : List Text) (releases : List Object) : Prop :=
  tagged tag releases = [] ∨
    ∃ draft assets, tagged tag releases = [draft] ∧ SoundDraft commit draft assets ∧ SoundAssets expected assets

/-! ### What the steps raise and return -/

/-- The error is a `ValueError` other than `DraftNotReady`. -/
def DraftError.IsPermanent (error : DraftError) : Prop := ∃ message, error = .permanent message

theorem isPermanent_value (message : String) : (DraftError.value message).IsPermanent := ⟨_, rfl⟩

theorem mapError_eq_ok {ε δ α : Type} {f : ε → δ} {run : Except ε α} {a : α} :
    run.mapError f = .ok a ↔ run = .ok a := by
  cases run <;> simp [Except.mapError]

theorem raisesOnly_mapError {α : Type} (run : Except Text α) :
    RaisesOnly DraftError.IsPermanent (run.mapError .permanent) := by
  cases run with
  | error message => exact .error ⟨message, rfl⟩
  | ok a => exact .ok a

theorem notPrerelease_eq_ok {invalid : Text} {release : Object} :
    notPrerelease invalid release = .ok () ↔ release.get "prerelease" = .bool false := by
  unfold notPrerelease
  split <;> simp_all

theorem isText_iff {constant : Text} {value : Value} : value.isText constant = true ↔ value = .str constant := by
  cases value <;> simp [Value.isText]

theorem matchStep_raises (tag : Text) (found : Matches) (release : Object) :
    RaisesOnly DraftError.IsPermanent (matchStep tag found release) := by
  unfold matchStep
  split
  · split
    · exact .bind (raisesOnly_mapError _) fun _ _ => .ok _
    · exact .ok _
    · exact .error (isPermanent_value _)
  · exact .ok _

theorem exactMatches_raises (releases : List Object) (tag : Text) :
    RaisesOnly DraftError.IsPermanent (exactMatches releases tag) :=
  .bind (.throwIf (isPermanent_value _)) fun _ _ => .foldlM (fun release _ found => matchStep_raises tag found release) _

/-- What a turn does with a release of the tag. -/
theorem matchStep_named {tag : Text} {found next : Matches} {release : Object} (matching : named tag release = true)
    (turn : matchStep tag found release = .ok next) :
    (next = { found with drafts := found.drafts ++ [release] } ∧ release.get "draft" = .bool true ∧
        release.get "prerelease" = .bool false) ∨
      next = { found with published := found.published ++ [release] } := by
  unfold matchStep at turn
  rw [if_pos matching] at turn
  split at turn
  · rename_i state
    obtain ⟨_, checked, turn⟩ := bind_eq_ok turn
    cases turn
    exact .inl ⟨rfl, state, notPrerelease_eq_ok.mp (mapError_eq_ok.mp checked)⟩
  · cases turn
    exact .inr rfl
  · cases turn

/-- Where no release of the tag is public, the drafts are all of them. -/
theorem exactMatches_drafts {releases : List Object} {tag : Text} {found : Matches}
    (run : exactMatches releases tag = .ok found) (private' : found.published = []) :
    found.drafts = tagged tag releases ∧
      ∀ draft ∈ found.drafts, draft.get "draft" = .bool true ∧ draft.get "prerelease" = .bool false := by
  obtain ⟨_, _, run⟩ := bind_eq_ok run
  refine foldlM_done (fun done (state : Matches) => state.published = [] → state.drafts = tagged tag done ∧
    ∀ draft ∈ state.drafts, draft.get "draft" = .bool true ∧ draft.get "prerelease" = .bool false)
    ?_ (by simp [tagged]) run private'
  intro done release state next holds turn empty
  by_cases matching : named tag release = true
  · rcases matchStep_named matching turn with ⟨same, state', plain⟩ | same
    · subst same
      obtain ⟨all, each⟩ := holds empty
      refine ⟨by simp [tagged, all, matching], ?_⟩
      intro draft member
      rcases List.mem_append.mp member with earlier | last
      · exact each draft earlier
      · exact List.mem_singleton.mp last ▸ ⟨state', plain⟩
    · subst same
      simp at empty
  · have same : state = next := by simpa [matchStep, matching] using turn
    subst same
    obtain ⟨all, each⟩ := holds empty
    exact ⟨by simp [tagged, all, matching], each⟩

/-- A list whose releases of the tag are sound drafts is read in full. -/
theorem exactMatches_of_tagged {releases : List Object} {tag : Text} (nonempty : tag ≠ [])
    (noSpace : tag.any Py.isSpace = false)
    (drafts : ∀ draft ∈ tagged tag releases, draft.get "draft" = .bool true ∧ draft.get "prerelease" = .bool false) :
    exactMatches releases tag = .ok { drafts := tagged tag releases, published := [] } := by
  have loop : ∀ found : Matches, releases.foldlM (matchStep tag) found =
      .ok { found with drafts := found.drafts ++ tagged tag releases } := by
    induction releases with
    | nil => simp [tagged, pure, Except.pure]
    | cons release rest ih =>
        intro found
        by_cases matching : named tag release = true
        · have head := drafts release (by simp [tagged, matching])
          have step : matchStep tag found release = .ok { found with drafts := found.drafts ++ [release] } := by
            simp [matchStep, matching, head.1, Except.mapError, notPrerelease_eq_ok.mpr head.2, ok_bind, pure,
              Except.pure]
          have rest' := ih (fun draft member => drafts draft (by
            simpa [tagged, matching] using Or.inr (by simpa [tagged] using member)))
          rw [List.foldlM_cons, step, ok_bind, rest']
          simp [tagged, matching]
        · have step : matchStep tag found release = .ok found := by simp [matchStep, matching]
          have rest' := ih (fun draft member => drafts draft (by simpa [tagged, matching] using member))
          rw [List.foldlM_cons, step, ok_bind, rest']
          simp [tagged, matching]
  simp only [exactMatches]
  rw [throwIf_eq_ok.mpr (by simp [nonempty, noSpace]), ok_bind, loop]
  rfl

/-! ### The verified draft -/

theorem assetIds_eq_ok {invalid : Text} {assets : List Value} {ids : List Nat} :
    assetIds invalid assets = .ok ids ↔
      ids = assets.map assetId ∧ ∀ asset ∈ assets, (asset.get "id").positiveInt.isSome := by
  constructor
  · intro run
    have each := mapM_eq_ok run
    clear run
    induction each with
    | nil => simp
    | cons head _ ih =>
        rename_i asset id assets ids rest
        cases known : (asset.get "id").positiveInt with
        | none => simp [known] at head
        | some number =>
            simp only [known, Except.ok.injEq] at head
            simp [ih.1, assetId, known, head]
            exact ih.2
  · intro ⟨same, each⟩
    subst same
    refine mapM_ok fun asset member => ?_
    obtain ⟨id, known⟩ := Option.isSome_iff_exists.mp (each asset member)
    simp [assetId, known]

theorem assetIds_raises (message : String) (assets : List Value) :
    RaisesOnly DraftError.IsPermanent ((assetIds (text message) assets).mapError .permanent) := raisesOnly_mapError _

theorem planFor_raises (commit : Text) (draft : Object) :
    RaisesOnly DraftError.IsPermanent (planFor commit draft) := by
  refine .bind (.throwIf (isPermanent_value _)) fun _ _ => ?_
  split
  · exact .error (isPermanent_value _)
  · split
    · exact .bind (assetIds_raises _ _) fun _ _ => .bind (.throwIf (isPermanent_value _)) fun _ _ => .ok _
    · exact .error (isPermanent_value _)

theorem planFor_eq_ok {commit : Text} {draft : Object} {plan : Plan} (run : planFor commit draft = .ok plan)
    (state : draft.get "draft" = .bool true) (plain : draft.get "prerelease" = .bool false) :
    plan.create = false ∧ ∃ assets, SoundDraft commit draft assets := by
  obtain ⟨_, target, run⟩ := bind_eq_ok run
  rw [throwIf_eq_ok, Bool.not_eq_false, isText_iff] at target
  split at run
  · cases run
  · rename_i id known
    split at run
    · rename_i assets shown
      obtain ⟨ids, collected, run⟩ := bind_eq_ok run
      obtain ⟨_, distinct, run⟩ := bind_eq_ok run
      rw [mapError_eq_ok, assetIds_eq_ok] at collected
      rw [throwIf_eq_ok, not_not, collected.1] at distinct
      cases run
      exact ⟨rfl, assets, ⟨state, plain, target, Option.isSome_iff_exists.mpr ⟨id, known⟩, shown, collected.2,
        distinct⟩⟩
    · cases run

theorem planFor_of_sound {commit : Text} {draft : Object} {assets : List Value}
    (sound : SoundDraft commit draft assets) : ∃ plan, planFor commit draft = .ok plan ∧ plan.create = false := by
  obtain ⟨id, known⟩ := Option.isSome_iff_exists.mp sound.id
  have collected : assetIds (text "matching draft contains an invalid asset id") assets = .ok (assets.map assetId) :=
    assetIds_eq_ok.mpr ⟨rfl, sound.ids⟩
  have target : (draft.get "target_commitish").isText commit = true := isText_iff.mpr sound.target
  refine ⟨{ create := false, draftId := some id, assetIds := (assets.map assetId).mergeSort }, ?_, rfl⟩
  simp [planFor, target, known, sound.shown, collected, Except.mapError, ok_bind, pure, Except.pure, throwIf,
    sound.distinctIds]

theorem preparePlan_raises (releases : List Object) (tag commit : Text) :
    RaisesOnly DraftError.IsPermanent (preparePlan releases tag commit) := by
  refine .bind (.throwIf (isPermanent_value _)) fun _ _ => .bind (exactMatches_raises _ _) fun found _ =>
    .bind (.throwIf (isPermanent_value _)) fun _ _ => ?_
  split
  · exact .ok _
  · exact planFor_raises _ _
  · exact .error (isPermanent_value _)

/-- A plan that does not create a draft is one for the only release of the tag. -/
theorem preparePlan_eq_ok {releases : List Object} {tag commit : Text} {plan : Plan}
    (run : preparePlan releases tag commit = .ok plan) (found' : plan.create = false) :
    ∃ draft assets, tagged tag releases = [draft] ∧ SoundDraft commit draft assets := by
  obtain ⟨_, _, run⟩ := bind_eq_ok run
  obtain ⟨found, looked, run⟩ := bind_eq_ok run
  obtain ⟨_, private', run⟩ := bind_eq_ok run
  rw [throwIf_eq_ok, not_not] at private'
  obtain ⟨all, each⟩ := exactMatches_drafts looked private'
  split at run
  · cases run
    cases found'
  · rename_i draft only
    have shape := each draft (by simp [only])
    obtain ⟨_, assets, sound⟩ := planFor_eq_ok run shape.1 shape.2
    exact ⟨draft, assets, by rw [← all, only], sound⟩
  · cases run

/-- `verified_draft` returns the only release of the tag where it is a sound draft, and raises otherwise. -/
theorem verifiedDraft_eq_ok {releases : List Object} {tag commit : Text} {draft : Object} (nonempty : tag ≠ [])
    (noSpace : tag.any Py.isSpace = false) (commitShape : isHexText 40 commit = true) :
    verifiedDraft releases tag commit = .ok draft ↔
      tagged tag releases = [draft] ∧ ∃ assets, SoundDraft commit draft assets := by
  constructor
  · intro run
    obtain ⟨plan, planned, run⟩ := bind_eq_ok run
    obtain ⟨_, there, run⟩ := bind_eq_ok run
    rw [throwIf_eq_ok, Bool.not_eq_true] at there
    obtain ⟨only, assets, all, sound⟩ := preparePlan_eq_ok planned there
    have looked : exactMatches releases tag = .ok { drafts := [only], published := [] } := by
      rw [exactMatches_of_tagged nonempty noSpace (by simp [all, sound.state, sound.notPrerelease]), all]
    rw [looked, ok_bind] at run
    cases run
    exact ⟨all, assets, sound⟩
  · intro ⟨all, assets, sound⟩
    have looked : exactMatches releases tag = .ok { drafts := [draft], published := [] } := by
      rw [exactMatches_of_tagged nonempty noSpace (by simp [all, sound.state, sound.notPrerelease]), all]
    obtain ⟨plan, planned, there⟩ := planFor_of_sound sound
    have prepared : preparePlan releases tag commit = .ok plan := by
      simp [preparePlan, requireCommit, throwIf, commitShape, looked, ok_bind, planned]
    simp [verifiedDraft, prepared, there, looked, ok_bind, throwIf, pure, Except.pure]

theorem verifiedDraft_raises {releases : List Object} {tag commit : Text} (nonempty : tag ≠ [])
    (noSpace : tag.any Py.isSpace = false) : RaisesOnly DraftError.IsPermanent (verifiedDraft releases tag commit) := by
  refine .bind (preparePlan_raises _ _ _) fun plan planned => .bind (.throwIf (isPermanent_value _)) fun _ there => ?_
  rw [throwIf_eq_ok, Bool.not_eq_true] at there
  obtain ⟨draft, assets, all, sound⟩ := preparePlan_eq_ok planned there
  rw [exactMatches_of_tagged nonempty noSpace (by simp [all, sound.state, sound.notPrerelease]), all, ok_bind]
  exact .ok _

/-! ### The assets -/

/-- An asset with an id is a dictionary. -/
theorem dict_of_id {asset : Value} (id : (asset.get "id").positiveInt.isSome) : ∃ entries, asset = .dict entries := by
  cases asset with
  | dict entries => exact ⟨entries, rfl⟩
  | _ => simp [Value.get, Value.positiveInt] at id

theorem nameStep_raises {asset : Value} (id : (asset.get "id").positiveInt.isSome) (names : List Text) :
    RaisesOnly DraftError.IsPermanent (nameStep names asset) := by
  obtain ⟨entries, same⟩ := dict_of_id id
  subst same
  simp only [nameStep]
  split
  · exact .bind (.throwIf (isPermanent_value _)) fun _ _ => .bind (.throwIf (isPermanent_value _)) fun _ _ => .ok _
  · exact .error (isPermanent_value _)

theorem nameStep_eq_ok {names next : List Text} {asset : Value} (turn : nameStep names asset = .ok next) :
    ∃ name, asset.get "name" = .str name ∧ isAssetName name = true ∧ name ∉ names ∧ next = name :: names := by
  unfold nameStep at turn
  split at turn
  · split at turn
    · rename_i name named
      obtain ⟨_, shape, turn⟩ := bind_eq_ok turn
      obtain ⟨_, fresh, turn⟩ := bind_eq_ok turn
      cases turn
      exact ⟨name, named, by simpa using throwIf_eq_ok.mp shape, throwIf_eq_ok.mp fresh, rfl⟩
    · cases turn
  · cases turn

theorem nameStep_of_named {names : List Text} {asset : Value} {name : Text} (named : asset.get "name" = .str name)
    (shape : isAssetName name = true) (fresh : name ∉ names) : nameStep names asset = .ok (name :: names) := by
  cases asset with
  | dict entries =>
      have entry : Object.get entries "name" = .str name := named
      simp [nameStep, entry, throwIf, shape, fresh, ok_bind, pure, Except.pure]
  | _ => cases named

theorem assetName_of_named {asset : Value} {name : Text} (named : asset.get "name" = .str name) :
    assetName asset = name := by
  simp [assetName, named]

/-- The loop over the names collects them in the opposite order, each once. -/
theorem names_eq_ok {assets : List Value} {names : List Text} (run : assets.foldlM nameStep [] = .ok names) :
    names = (assets.map assetName).reverse ∧ names.Nodup ∧ ∀ asset ∈ assets, ∃ name, asset.get "name" = .str name := by
  refine foldlM_done (fun done (names : List Text) => names = (done.map assetName).reverse ∧ names.Nodup ∧
    ∀ asset ∈ done, ∃ name, asset.get "name" = .str name) ?_ (by simp) run
  intro done asset names next holds turn
  obtain ⟨collected, distinct, each⟩ := holds
  obtain ⟨name, named, _, fresh, same⟩ := nameStep_eq_ok turn
  subst same
  refine ⟨by simp [collected, assetName_of_named named], List.nodup_cons.mpr ⟨fresh, distinct⟩, ?_⟩
  intro other member
  rcases List.mem_append.mp member with earlier | last
  · exact each other earlier
  · exact ⟨name, List.mem_singleton.mp last ▸ named⟩

theorem names_of_sound {assets : List Value} {expected names : List Text}
    (shapes : ∀ name ∈ expected, isAssetName name = true) (sound : SoundAssets expected assets)
    (apart : ∀ name ∈ names, name ∉ assets.map assetName) :
    assets.foldlM nameStep names = .ok ((assets.map assetName).reverse ++ names) := by
  induction assets generalizing names with
  | nil => rfl
  | cons asset rest ih =>
      obtain ⟨name, awaited, named⟩ := sound.names asset List.mem_cons_self
      have same := assetName_of_named named
      have distinct := sound.distinctNames
      simp only [List.map_cons, same, List.nodup_cons] at distinct
      have fresh : name ∉ names := fun member => apart name member (by simp [same])
      have others : SoundAssets expected rest :=
        ⟨fun other member => sound.names other (List.mem_cons_of_mem asset member), distinct.2⟩
      rw [List.foldlM_cons, nameStep_of_named named (shapes name awaited) fresh, ok_bind, ih others]
      · simp [same]
      · intro other member inRest
        rcases List.mem_cons.mp member with equal | earlier
        · exact distinct.1 (equal ▸ inRest)
        · exact apart other earlier (List.mem_cons_of_mem _ inRest)

theorem mem_names_iff {assets : List Value} {name : Text}
    (named : ∀ asset ∈ assets, ∃ name, asset.get "name" = .str name) :
    name ∈ assets.map assetName ↔ ∃ asset ∈ assets, asset.get "name" = .str name := by
  rw [List.mem_map]
  constructor
  · intro ⟨asset, member, same⟩
    obtain ⟨other, read⟩ := named asset member
    exact ⟨asset, member, by rw [read, ← same, assetName_of_named read]⟩
  · intro ⟨asset, member, read⟩
    exact ⟨asset, member, assetName_of_named read⟩

/-- How the checks on the assets end: they pass on a complete set, ask for patience where nothing but completeness is
missing, and fail for good otherwise. -/
theorem checkAssets_cases {expected : List Text} {assets : List Value}
    (shapes : ∀ name ∈ expected, isAssetName name = true)
    (ids : ∀ asset ∈ assets, (asset.get "id").positiveInt.isSome) :
    (checkAssets expected assets = .ok () ∧ SoundAssets expected assets ∧ Complete expected assets) ∨
    ((∃ message, checkAssets expected assets = .error (.notReady message)) ∧ SoundAssets expected assets ∧
      ¬ Complete expected assets) ∨
    ((∃ message, checkAssets expected assets = .error (.permanent message)) ∧ ¬ SoundAssets expected assets) := by
  cases collected : assets.foldlM nameStep [] with
  | error error =>
      refine .inr (.inr ⟨?_, fun sound => ?_⟩)
      · obtain ⟨message, same⟩ :=
          RaisesOnly.foldlM (fun asset member names => nameStep_raises (ids asset member) names) [] error collected
        exact ⟨message, by simp [checkAssets, collected, same, bind, Except.bind]⟩
      · rw [names_of_sound shapes sound (by simp)] at collected
        cases collected
  | ok names =>
      obtain ⟨same, distinct, named⟩ := names_eq_ok collected
      have member : ∀ name, name ∈ names ↔ ∃ asset ∈ assets, asset.get "name" = .str name := fun name => by
        rw [same, List.mem_reverse, mem_names_iff named]
      by_cases foreign : ∃ name ∈ names, name ∉ expected
      · refine .inr (.inr ⟨⟨text "matching draft contains an unexpected asset", ?_⟩, fun sound => ?_⟩)
        · simp only [checkAssets, collected, ok_bind, throwIf, if_pos foreign]
          rfl
        · obtain ⟨name, there, strange⟩ := foreign
          obtain ⟨asset, inside, read⟩ := (member name).mp there
          obtain ⟨other, awaited, read'⟩ := sound.names asset inside
          rw [read] at read'
          cases read'
          exact strange awaited
      · have sound : SoundAssets expected assets := by
          refine ⟨fun asset inside => ?_, ?_⟩
          · obtain ⟨name, read⟩ := named asset inside
            refine ⟨name, ?_, read⟩
            by_contra strange
            exact foreign ⟨name, (member name).mpr ⟨asset, inside, read⟩, strange⟩
          · exact (List.reverse_perm _).nodup_iff.mp (same ▸ distinct)
        have passed : throwIf (∃ name ∈ names, name ∉ expected)
            (DraftError.value "matching draft contains an unexpected asset") = .ok () := throwIf_eq_ok.mpr foreign
        by_cases lacking : ∃ name ∈ expected, name ∉ names
        · refine .inr (.inl ⟨⟨text "verified draft asset set is not ready", ?_⟩, sound, fun complete => ?_⟩)
          · simp only [checkAssets, collected, ok_bind, passed]
            simp only [throwIf, if_pos lacking]
            rfl
          · obtain ⟨name, awaited, absent⟩ := lacking
            exact absent ((member name).mpr (complete.present name awaited))
        · have all : ∀ name ∈ expected, ∃ asset ∈ assets, asset.get "name" = .str name := by
            intro name awaited
            refine (member name).mp ?_
            by_contra absent
            exact lacking ⟨name, awaited, absent⟩
          have passed' : throwIf (∃ name ∈ expected, name ∉ names)
              (DraftError.notReady (text "verified draft asset set is not ready")) = .ok () := throwIf_eq_ok.mpr lacking
          cases checked : assets.forM checkMetadata with
          | ok _ =>
              refine .inl ⟨?_, sound, all, fun asset inside => ?_⟩
              · simp only [checkAssets, collected, ok_bind, passed, passed', checked]
              · simpa [checkMetadata] using forM_eq_ok checked asset inside
          | error error =>
              refine .inr (.inl ⟨?_, sound, fun complete => ?_⟩)
              · have kind : RaisesOnly (fun error : DraftError => ∃ message, error = .notReady message)
                    (assets.forM checkMetadata) := .forM fun asset _ => .throwIf ⟨_, rfl⟩
                obtain ⟨message, same⟩ := kind error checked
                refine ⟨message, ?_⟩
                simp only [checkAssets, collected, ok_bind, passed, passed', checked, same]
              · have passes : assets.forM checkMetadata = .ok () := by
                  refine forM_ok fun asset inside => ?_
                  simpa [checkMetadata] using complete.metadata asset inside
                rw [passes] at checked
                cases checked

/-! ### The three outcomes -/

section Outcomes

variable {tag commit : Text} {expected : List Text}

theorem expectedAssetNames_ok (nonempty : expected ≠ []) (distinct : expected.Nodup)
    (shapes : ∀ name ∈ expected, isAssetName name = true) :
    ∃ names, expectedAssetNames expected = .ok names ∧ ∀ name, name ∈ names ↔ name ∈ expected := by
  have loop : ∀ (rest names : List Text), (∀ name ∈ rest, isAssetName name = true) → (names.reverse ++ rest).Nodup →
      rest.foldlM expectedNameStep names = .ok (rest.reverse ++ names) := by
    intro rest
    induction rest with
    | nil => exact fun names _ _ => rfl
    | cons name rest ih =>
        intro names shapes distinct
        have fresh : name ∉ names := by
          intro member
          have apart := (List.nodup_append.mp distinct).2.2 name (List.mem_reverse.mpr member) name List.mem_cons_self
          exact apart rfl
        have later := ih (name :: names) (fun other member => shapes other (List.mem_cons_of_mem name member))
          (by simpa using distinct)
        have turn : expectedNameStep names name = .ok (name :: names) := by
          simp [expectedNameStep, throwIf, shapes name List.mem_cons_self, fresh, ok_bind, pure, Except.pure]
        rw [List.foldlM_cons, turn, ok_bind, later]
        simp
  refine ⟨expected.reverse, ?_, fun name => List.mem_reverse⟩
  simp only [expectedAssetNames, throwIf_eq_ok.mpr nonempty, ok_bind]
  simpa using loop expected [] shapes (by simpa using distinct)

theorem soundAssets_congr {names : List Text} (same : ∀ name, name ∈ names ↔ name ∈ expected) {assets : List Value} :
    SoundAssets names assets ↔ SoundAssets expected assets := by
  constructor <;> intro sound
  · exact ⟨fun asset member => by simpa only [same] using sound.names asset member, sound.distinctNames⟩
  · exact ⟨fun asset member => by simpa only [same] using sound.names asset member, sound.distinctNames⟩

theorem complete_congr {names : List Text} (same : ∀ name, name ∈ names ↔ name ∈ expected) {assets : List Value} :
    Complete names assets ↔ Complete expected assets := by
  constructor <;> intro complete
  · exact ⟨fun name member => complete.present name ((same name).mpr member), complete.metadata⟩
  · exact ⟨fun name member => complete.present name ((same name).mp member), complete.metadata⟩

variable {releases : List Object}

/-- How `verified_ready_draft` ends. -/
theorem verifiedReadyDraft_cases (nonemptyTag : tag ≠ []) (noSpace : tag.any Py.isSpace = false)
    (commitShape : isHexText 40 commit = true) (nonempty : expected ≠ []) (distinct : expected.Nodup)
    (shapes : ∀ name ∈ expected, isAssetName name = true) :
    (∃ draft, verifiedReadyDraft releases tag commit expected = .ok draft ∧
      IsReadyDraft tag commit expected releases draft) ∨
    ((∃ message, verifiedReadyDraft releases tag commit expected = .error (.notReady message)) ∧
      Sound tag commit expected releases ∧ ∀ draft, ¬ IsReadyDraft tag commit expected releases draft) ∨
    ((∃ message, verifiedReadyDraft releases tag commit expected = .error (.permanent message)) ∧
      ¬ Sound tag commit expected releases) := by
  obtain ⟨names, expectedNames, sameNames⟩ := expectedAssetNames_ok nonempty distinct shapes
  have commitPassed : requireCommit commit = .ok () := by simp [requireCommit, commitShape]
  have nameShapes : ∀ name ∈ names, isAssetName name = true := fun name member =>
    shapes name ((sameNames name).mp member)
  cases looked : exactMatches releases tag with
  | error error =>
      obtain ⟨message, same⟩ := exactMatches_raises releases tag error looked
      refine .inr (.inr ⟨⟨message, ?_⟩, fun sound => ?_⟩)
      · simp only [verifiedReadyDraft, expectedNames, commitPassed, looked, ok_bind, same]
        rfl
      · have drafts : ∀ draft ∈ tagged tag releases,
            draft.get "draft" = .bool true ∧ draft.get "prerelease" = .bool false := by
          intro draft member
          rcases sound with none | ⟨only, assets, all, sound, _⟩
          · simp [none] at member
          · rw [all] at member
            cases List.mem_singleton.mp member
            exact ⟨sound.state, sound.notPrerelease⟩
        rw [exactMatches_of_tagged nonemptyTag noSpace drafts] at looked
        cases looked
  | ok found =>
      by_cases invisible : found.drafts = [] ∧ found.published = []
      · have none : tagged tag releases = [] := by rw [← (exactMatches_drafts looked invisible.2).1, invisible.1]
        refine .inr (.inl ⟨⟨text "verified draft is not visible yet", ?_⟩, .inl none, fun draft ready => ?_⟩)
        · simp only [verifiedReadyDraft, expectedNames, commitPassed, looked, ok_bind, throwIf, if_pos invisible]
          rfl
        · simp [ready.1] at none
      · have visible : throwIf (found.drafts = [] ∧ found.published = [])
            (DraftError.notReady (text "verified draft is not visible yet")) = .ok () := throwIf_eq_ok.mpr invisible
        have some : tagged tag releases ≠ [] := by
          intro none
          rw [exactMatches_of_tagged nonemptyTag noSpace (by simp [none]), none] at looked
          cases looked
          exact invisible ⟨rfl, rfl⟩
        cases verified : verifiedDraft releases tag commit with
        | error error =>
            obtain ⟨message, same⟩ := verifiedDraft_raises nonemptyTag noSpace error verified
            refine .inr (.inr ⟨⟨message, ?_⟩, fun sound => ?_⟩)
            · simp only [verifiedReadyDraft, expectedNames, commitPassed, looked, ok_bind, visible, verified, same]
              rfl
            · rcases sound with none | ⟨only, assets, all, sound, _⟩
              · exact some none
              · rw [(verifiedDraft_eq_ok nonemptyTag noSpace commitShape).mpr ⟨all, assets, sound⟩] at verified
                cases verified
        | ok draft =>
            obtain ⟨all, assets, sound⟩ := (verifiedDraft_eq_ok nonemptyTag noSpace commitShape).mp verified
            have run : verifiedReadyDraft releases tag commit expected =
                checkAssets names assets >>= fun _ => pure draft := by
              simp only [verifiedReadyDraft, expectedNames, commitPassed, looked, ok_bind, visible, verified,
                sound.shown]
            have only : ∀ {draft' : Object} {assets' : List Value}, tagged tag releases = [draft'] →
                SoundDraft commit draft' assets' → assets' = assets := by
              intro draft' assets' all' sound'
              rw [all] at all'
              cases all'
              have shown := sound'.shown
              rw [sound.shown] at shown
              cases shown
              rfl
            rcases checkAssets_cases nameShapes sound.ids with ⟨passed, soundAssets, complete⟩ |
              ⟨⟨message, raised⟩, soundAssets, incomplete⟩ | ⟨⟨message, raised⟩, unsound⟩
            · refine .inl ⟨draft, by rw [run, passed]; rfl, all, assets, sound, ?_, ?_⟩
              · exact (soundAssets_congr sameNames).mp soundAssets
              · exact (complete_congr sameNames).mp complete
            · refine .inr (.inl ⟨⟨message, by rw [run, raised]; rfl⟩, ?_, fun draft' ready => ?_⟩)
              · exact .inr ⟨draft, assets, all, sound, (soundAssets_congr sameNames).mp soundAssets⟩
              · obtain ⟨all', assets', sound', _, complete⟩ := ready
                rw [only all' sound'] at complete
                exact incomplete ((complete_congr sameNames).mpr complete)
            · refine .inr (.inr ⟨⟨message, by rw [run, raised]; rfl⟩, fun sound' => ?_⟩)
              rcases sound' with none | ⟨draft', assets', all', sound', soundAssets⟩
              · exact some none
              · rw [only all' sound'] at soundAssets
                exact unsound ((soundAssets_congr sameNames).mpr soundAssets)

/-! ### What an appearance keeps -/

theorem tagged_middle {before after : List Object} {release draft : Object} (matching : named tag release = true)
    (only : tagged tag (before ++ release :: after) = [draft]) :
    draft = release ∧ tagged tag before = [] ∧ tagged tag after = [] := by
  have split : tagged tag before ++ release :: tagged tag after = [draft] := by
    simpa [tagged, List.filter_append, List.filter_cons, matching] using only
  cases front : tagged tag before with
  | nil =>
      rw [front, List.nil_append, List.cons.injEq] at split
      exact ⟨split.1.symm, rfl, split.2⟩
  | cons first rest =>
      rw [front] at split
      simp at split

theorem tagged_around {before after : List Object} {release : Object} (matching : named tag release = true)
    (front : tagged tag before = []) (back : tagged tag after = []) :
    tagged tag (before ++ release :: after) = [release] := by
  simp only [tagged] at front back ⊢
  simp [front, back, matching]

theorem named_same {release release' : Object} (same : SameBut ["assets"] release release') :
    named tag release' = named tag release := by
  simp only [named, same "tag_name" (by decide)]

/-- A draft with another list of assets. -/
theorem SoundDraft.reassign {draft draft' : Object} {assets assets' : List Value}
    (same : SameBut ["assets"] draft draft') (sound : SoundDraft commit draft assets)
    (shown : draft'.get "assets" = .list assets') (ids : ∀ asset ∈ assets', (asset.get "id").positiveInt.isSome)
    (distinctIds : (assets'.map assetId).Nodup) : SoundDraft commit draft' assets' where
  state := by rw [same "draft" (by decide), sound.state]
  notPrerelease := by rw [same "prerelease" (by decide), sound.notPrerelease]
  target := by rw [same "target_commitish" (by decide), sound.target]
  id := by rw [same "id" (by decide)]; exact sound.id
  shown := shown
  ids := ids
  distinctIds := distinctIds

theorem SameBut.symm {keys : List String} {object object' : Object} (same : SameBut keys object object') :
    SameBut keys object' object := fun key outside => (same key outside).symm

/-- An asset gives way to one with the same id and the same name. -/
theorem replace_sound {draft draft' : Object} {front back : List Value} {asset asset' : Value}
    (same : SameBut ["assets"] draft draft') (shown : draft'.get "assets" = .list (front ++ asset' :: back))
    (sameId : asset'.get "id" = asset.get "id") (sameName : asset'.get "name" = asset.get "name")
    (sound : SoundDraft commit draft (front ++ asset :: back)) (soundAssets : SoundAssets expected (front ++ asset :: back)) :
    SoundDraft commit draft' (front ++ asset' :: back) ∧ SoundAssets expected (front ++ asset' :: back) := by
  have ids : (front ++ asset' :: back).map assetId = (front ++ asset :: back).map assetId := by simp [assetId, sameId]
  have names : (front ++ asset' :: back).map assetName = (front ++ asset :: back).map assetName := by
    simp [assetName, sameName]
  have stands : ∀ other ∈ front ++ asset' :: back, ∃ other' ∈ front ++ asset :: back,
      other.get "id" = other'.get "id" ∧ other.get "name" = other'.get "name" := by
    intro other member
    rcases List.mem_append.mp member with inFront | rest
    · exact ⟨other, List.mem_append_left _ inFront, rfl, rfl⟩
    · rcases List.mem_cons.mp rest with equal | inBack
      · exact ⟨asset, by simp, by rw [equal, sameId], by rw [equal, sameName]⟩
      · exact ⟨other, List.mem_append_right _ (List.mem_cons_of_mem _ inBack), rfl, rfl⟩
  constructor
  · refine sound.reassign same shown (fun other member => ?_) (ids ▸ sound.distinctIds)
    obtain ⟨other', member', equal, _⟩ := stands other member
    exact equal ▸ sound.ids other' member'
  · refine ⟨fun other member => ?_, names ▸ soundAssets.distinctNames⟩
    obtain ⟨other', member', _, equal⟩ := stands other member
    exact equal ▸ soundAssets.names other' member'

/-- What stands against acceptance after an appearance stood against it before. -/
theorem sound_of_appears {later : List Object} (step : Appears tag expected releases later)
    (sound : Sound tag commit expected later) : Sound tag commit expected releases := by
  cases step with
  | draft missing made =>
      rename_i before after release
      rcases sound with none | ⟨draft, assets, only, _⟩
      · simp [tagged, made.1] at none
      · obtain ⟨_, front, back⟩ := tagged_middle made.1 only
        exact .inl (by simpa [tagged] using And.intro front back)
  | asset matching same shown hasName awaited missing shown' =>
      rename_i before after release release' asset assets later name
      have matching' : named tag release' = true := (named_same same).trans matching.1
      rcases sound with none | ⟨draft, assets', only, soundDraft, soundAssets⟩
      · simp [tagged, matching'] at none
      · obtain ⟨equal, front, back⟩ := tagged_middle matching' only
        subst equal
        have assetsSame := soundDraft.shown
        rw [shown', Value.list.injEq] at assetsSame
        subst assetsSame
        have fewer : List.Sublist (assets ++ later) (assets ++ .dict asset :: later) :=
          List.Sublist.append_left (List.sublist_cons_self _ _) assets
        refine .inr ⟨release, assets ++ later, tagged_around matching.1 front back, ?_, ?_, ?_⟩
        · exact soundDraft.reassign same.symm shown (fun other member => soundDraft.ids other (fewer.subset member))
            (soundDraft.distinctIds.sublist (fewer.map _))
        · exact fun other member => soundAssets.names other (fewer.subset member)
        · exact soundAssets.distinctNames.sublist (fewer.map _)
  | metadata matching same shown sameAsset shown' =>
      rename_i before after release release' asset asset' assets later
      have matching' : named tag release' = true := (named_same same).trans matching.1
      rcases sound with none | ⟨draft, assets', only, soundDraft, soundAssets⟩
      · simp [tagged, matching'] at none
      · obtain ⟨equal, front, back⟩ := tagged_middle matching' only
        subst equal
        have assetsSame := soundDraft.shown
        rw [shown', Value.list.injEq] at assetsSame
        subst assetsSame
        have sameId : (Value.dict asset').get "id" = (Value.dict asset).get "id" := sameAsset "id" (by decide)
        have sameName : (Value.dict asset').get "name" = (Value.dict asset).get "name" := sameAsset "name" (by decide)
        have back' := replace_sound same.symm shown sameId.symm sameName.symm soundDraft soundAssets
        exact .inr ⟨release, assets ++ .dict asset :: later, tagged_around matching.1 front back, back'.1, back'.2⟩

/-- What stands against acceptance at any later time stood against it from the start. -/
theorem sound_of_catchesUp {later : List Object} (run : CatchesUp tag expected releases later)
    (sound : Sound tag commit expected later) : Sound tag commit expected releases := by
  induction run using Relation.ReflTransGen.head_induction_on with
  | refl => exact sound
  | head step _ ih => exact sound_of_appears step ih

/-! ### Every sound list catches up -/

/-- A sound draft of the tag between releases of other tags. -/
structure Between (tag commit : Text) (expected : List Text) (draft : Object) (assets : List Value) : Prop where
  matching : named tag draft = true
  draft : SoundDraft commit draft assets
  assets : SoundAssets expected assets

theorem exists_unused (used : List Nat) : ∃ id, 0 < id ∧ id ∉ used := by
  have bounded : ∃ bound, ∀ id ∈ used, id < bound := by
    induction used with
    | nil => exact ⟨0, by simp⟩
    | cons id rest ih =>
        obtain ⟨bound, below⟩ := ih
        refine ⟨max (id + 1) bound, ?_⟩
        intro other member
        rcases List.mem_cons.mp member with same | later
        · omega
        · have := below other later
          omega
  obtain ⟨bound, below⟩ := bounded
  exact ⟨bound + 1, by omega, fun member => by have := below _ member; omega⟩

theorem nodup_snoc {α : Type} {items : List α} {a : α} (distinct : items.Nodup) (fresh : a ∉ items) :
    (items ++ [a]).Nodup := by
  refine List.nodup_append.mpr ⟨distinct, List.pairwise_singleton _ a, fun b inside c last same => ?_⟩
  exact fresh (List.mem_singleton.mp last ▸ same ▸ inside)

/-- A digest of the right shape. -/
def someDigest : Text := text "sha256:" ++ List.replicate 64 48

theorem isAssetDigest_someDigest : isAssetDigest someDigest = true := by decide

theorem sameBut_set (object : Object) (value : Value) : SameBut ["assets"] object (object.set "assets" value) :=
  fun _ outside => Object.get_set_other object value (by simpa using outside)

/-- The asset of a name with an id, a size and a digest. -/
def completeAsset (id : Nat) (name : Text) : Object :=
  [(text "id", .int id), (text "name", .str name), (text "size", .int 1), (text "digest", .str someDigest)]

theorem completeAsset_get (id : Nat) (name : Text) :
    (Value.dict (completeAsset id name)).get "id" = .int id ∧
      (Value.dict (completeAsset id name)).get "name" = .str name := by
  constructor <;> rfl

/-- An asset to which a size and a digest were given. -/
def withMetadata (asset : Object) : Object := (asset.set "size" (.int 1)).set "digest" (.str someDigest)

theorem sameBut_withMetadata (asset : Object) : SameBut ["size", "digest"] asset (withMetadata asset) := by
  intro key outside
  simp only [List.mem_cons, List.not_mem_nil, or_false, not_or] at outside
  rw [withMetadata, Object.get_set_other _ _ outside.2, Object.get_set_other _ _ outside.1]

theorem metadataReady_withMetadata (asset : Object) : metadataReady (.dict (withMetadata asset)) = true := by
  have size : (Value.dict (withMetadata asset)).get "size" = .int 1 := by
    simp only [Value.get, withMetadata]
    rw [Object.get_set_other _ _ (by decide), Object.get_set_same]
  have digest : (Value.dict (withMetadata asset)).get "digest" = .str someDigest := by
    simp only [Value.get, withMetadata, Object.get_set_same]
  simp [metadataReady, size, digest, Value.positiveInt, isAssetDigest_someDigest]

variable {before after : List Object}

/-- One more expected asset appears. -/
theorem between_add {draft : Object} {assets : List Value} {name : Text} (held : Between tag commit expected draft assets)
    (awaited : name ∈ expected) (missing : ∀ other ∈ assets, other.get "name" ≠ .str name) :
    ∃ draft' asset, Appears tag expected (before ++ draft :: after) (before ++ draft' :: after) ∧
      asset.get "name" = .str name ∧ Between tag commit expected draft' (assets ++ [asset]) := by
  obtain ⟨id, positive, unused⟩ := exists_unused (assets.map assetId)
  obtain ⟨idShown, nameShown⟩ := completeAsset_get id name
  have idSome : ((Value.dict (completeAsset id name)).get "id").positiveInt = some id := by
    simp [idShown, Value.positiveInt, positive]
  have shown' : (draft.set "assets" (.list (assets ++ [.dict (completeAsset id name)]))).get "assets" =
      .list (assets ++ [.dict (completeAsset id name)]) := Object.get_set_same _ _ _
  have same := sameBut_set draft (.list (assets ++ [.dict (completeAsset id name)]))
  have step : Appears tag expected (before ++ draft :: after)
      (before ++ draft.set "assets" (.list (assets ++ [.dict (completeAsset id name)])) :: after) := by
    have shown : draft.get "assets" = .list (assets ++ []) := by simpa using held.draft.shown
    exact .asset ⟨held.matching, held.draft.state⟩ same shown nameShown awaited (by simpa using missing) shown'
  refine ⟨_, .dict (completeAsset id name), step, nameShown, (named_same same).trans held.matching, ?_, ?_, ?_⟩
  · refine held.draft.reassign same shown' ?_ ?_
    · intro asset member
      rcases List.mem_append.mp member with earlier | last
      · exact held.draft.ids asset earlier
      · rw [List.mem_singleton.mp last, idSome]
        rfl
    · have last : assetId (.dict (completeAsset id name)) = id := by simp [assetId, idSome]
      rw [List.map_append, List.map_singleton, last]
      exact nodup_snoc held.draft.distinctIds unused
  · intro asset member
    rcases List.mem_append.mp member with earlier | last
    · exact held.assets.names asset earlier
    · exact ⟨name, awaited, List.mem_singleton.mp last ▸ nameShown⟩
  · rw [List.map_append, List.map_singleton, assetName_of_named nameShown]
    refine nodup_snoc held.assets.distinctNames fun member => ?_
    obtain ⟨asset, inside, read⟩ := (mem_names_iff fun asset inside => by
      obtain ⟨other, _, read⟩ := held.assets.names asset inside
      exact ⟨other, read⟩).mp member
    exact missing asset inside read

/-- All the expected assets appear, one after the other. -/
theorem between_all (awaited : List Text) : ∀ {draft : Object} {assets : List Value},
    Between tag commit expected draft assets → (∀ name ∈ awaited, name ∈ expected) →
    ∃ draft' assets', CatchesUp tag expected (before ++ draft :: after) (before ++ draft' :: after) ∧
      Between tag commit expected draft' assets' ∧ (∀ asset ∈ assets, asset ∈ assets') ∧
      ∀ name ∈ awaited, ∃ asset ∈ assets', asset.get "name" = .str name := by
  induction awaited with
  | nil => exact fun held _ => ⟨_, _, .refl, held, fun _ member => member, by simp⟩
  | cons name rest ih =>
      intro draft assets held inside
      have restInside : ∀ other ∈ rest, other ∈ expected := fun other member =>
        inside other (List.mem_cons_of_mem name member)
      by_cases there : ∃ asset ∈ assets, asset.get "name" = .str name
      · obtain ⟨draft', assets', run, held', kept, all⟩ := ih held restInside
        refine ⟨draft', assets', run, held', kept, ?_⟩
        intro other member
        rcases List.mem_cons.mp member with same | later
        · obtain ⟨asset, member', read⟩ := there
          exact ⟨asset, kept asset member', same ▸ read⟩
        · exact all other later
      · have missing : ∀ other ∈ assets, other.get "name" ≠ .str name := fun other member read =>
          there ⟨other, member, read⟩
        obtain ⟨draft₁, asset, step, read, held₁⟩ :=
          @between_add tag commit expected before after _ _ _ held (inside name List.mem_cons_self) missing
        obtain ⟨draft', assets', run, held', kept, all⟩ := ih held₁ restInside
        refine ⟨draft', assets', .head step run, held',
          fun other member => kept other (List.mem_append_left _ member), ?_⟩
        intro other member
        rcases List.mem_cons.mp member with same | later
        · exact ⟨asset, kept asset (by simp), same ▸ read⟩
        · exact all other later

/-- The size and the digest of every asset appear, from the first to the last. -/
theorem between_ready (later : List Value) : ∀ {draft : Object} {done : List Value},
    Between tag commit expected draft (done ++ later) → (∀ asset ∈ done, metadataReady asset = true) →
    ∃ draft' assets', CatchesUp tag expected (before ++ draft :: after) (before ++ draft' :: after) ∧
      Between tag commit expected draft' assets' ∧ (∀ asset ∈ assets', metadataReady asset = true) ∧
      ∀ asset ∈ done ++ later, ∃ asset' ∈ assets', asset'.get "name" = asset.get "name" := by
  induction later with
  | nil =>
      intro draft done held ready
      rw [List.append_nil] at held ⊢
      exact ⟨draft, done, .refl, held, ready, fun asset member => ⟨asset, member, rfl⟩⟩
  | cons asset rest ih =>
      intro draft done held ready
      obtain ⟨entries, equal⟩ := dict_of_id (held.draft.ids asset (by simp))
      subst equal
      have sameAsset := sameBut_withMetadata entries
      have sameId : (Value.dict (withMetadata entries)).get "id" = (Value.dict entries).get "id" :=
        sameAsset "id" (by decide)
      have sameName : (Value.dict (withMetadata entries)).get "name" = (Value.dict entries).get "name" :=
        sameAsset "name" (by decide)
      have shown : (draft.set "assets" (.list (done ++ .dict (withMetadata entries) :: rest))).get "assets" =
          .list (done ++ .dict (withMetadata entries) :: rest) := Object.get_set_same _ _ _
      have same := sameBut_set draft (.list (done ++ .dict (withMetadata entries) :: rest))
      have step : Appears tag expected (before ++ draft :: after)
          (before ++ draft.set "assets" (.list (done ++ .dict (withMetadata entries) :: rest)) :: after) :=
        .metadata ⟨held.matching, held.draft.state⟩ same held.draft.shown sameAsset shown
      obtain ⟨soundDraft, soundAssets⟩ := replace_sound same shown sameId sameName held.draft held.assets
      have held₁ : Between tag commit expected (draft.set "assets" (.list (done ++ .dict (withMetadata entries) :: rest)))
          ((done ++ [.dict (withMetadata entries)]) ++ rest) := by
        rw [List.append_assoc]
        exact ⟨(named_same same).trans held.matching, soundDraft, soundAssets⟩
      have ready₁ : ∀ asset ∈ done ++ [.dict (withMetadata entries)], metadataReady asset = true := by
        intro asset member
        rcases List.mem_append.mp member with earlier | last
        · exact ready asset earlier
        · exact List.mem_singleton.mp last ▸ metadataReady_withMetadata entries
      obtain ⟨draft', assets', run, held', all, stands⟩ := ih held₁ ready₁
      refine ⟨draft', assets', .head step run, held', all, ?_⟩
      intro other member
      rcases List.mem_append.mp member with inDone | inRest
      · exact stands other (by simp [inDone])
      · rcases List.mem_cons.mp inRest with equal | inBack
        · obtain ⟨other', member', read⟩ := stands (.dict (withMetadata entries)) (by simp)
          exact ⟨other', member', by rw [read, equal, sameName]⟩
        · exact stands other (by simp [inBack])

/-- A sound draft becomes a ready one. -/
theorem between_catchesUp {draft : Object} {assets : List Value} (held : Between tag commit expected draft assets)
    (front : tagged tag before = []) (back : tagged tag after = []) :
    ∃ later ready, CatchesUp tag expected (before ++ draft :: after) later ∧
      IsReadyDraft tag commit expected later ready := by
  obtain ⟨draft₁, assets₁, run₁, held₁, _, all⟩ :=
    @between_all tag commit expected before after expected _ _ held fun _ member => member
  obtain ⟨draft₂, assets₂, run₂, held₂, ready, stands⟩ :=
    @between_ready tag commit expected before after assets₁ _ [] held₁ (by simp)
  refine ⟨before ++ draft₂ :: after, draft₂, run₁.trans run₂, tagged_around held₂.matching front back, assets₂,
    held₂.draft, held₂.assets, ?_, ready⟩
  intro name awaited
  obtain ⟨asset, member, read⟩ := all name awaited
  obtain ⟨asset', member', same⟩ := stands asset member
  exact ⟨asset', member', same.trans read⟩

/-- A list with nothing against acceptance catches up with an accepted one. -/
theorem exists_catchesUp (sound : Sound tag commit expected releases) :
    ∃ later ready, CatchesUp tag expected releases later ∧ IsReadyDraft tag commit expected later ready := by
  rcases sound with none | ⟨draft, assets, only, soundDraft, soundAssets⟩
  · -- The draft appears first, without assets.
    have shape : named tag [(text "tag_name", .str tag), (text "draft", .bool true), (text "prerelease", .bool false),
        (text "target_commitish", .str commit), (text "id", .int 1), (text "assets", .list [])] = true :=
      isText_iff.mpr rfl
    have missing : ∀ other ∈ [] ++ releases, ¬ isDraft tag other := by
      intro other member made
      have inside : other ∈ tagged tag releases := List.mem_filter.mpr ⟨member, made.1⟩
      simp [none] at inside
    have step : Appears tag expected ([] ++ releases) ([] ++ _ :: releases) := .draft missing ⟨shape, rfl⟩
    have held : Between tag commit expected _ [] :=
      ⟨shape, ⟨rfl, rfl, rfl, rfl, rfl, by simp, by simp⟩, ⟨by simp, by simp⟩⟩
    obtain ⟨later, ready, run, accepted⟩ := @between_catchesUp tag commit expected [] releases _ _ held rfl none
    exact ⟨later, ready, .head step run, accepted⟩
  · have member : draft ∈ tagged tag releases := by simp [only]
    have matching := (List.mem_filter.mp member).2
    obtain ⟨before, after, split⟩ := List.append_of_mem (List.mem_filter.mp member).1
    subst split
    obtain ⟨_, front, back⟩ := tagged_middle matching only
    exact between_catchesUp ⟨matching, soundDraft, soundAssets⟩ front back

/-! ### The three states of a draft -/

/-- `verified_ready_draft` returns exactly the unique complete draft of the tag, asks for patience exactly where the
list is not accepted and can still become so by what is missing appearing, and fails for good in every other case. -/
theorem readyDraftStates (nonemptyTag : tag ≠ []) (noSpace : tag.any Py.isSpace = false)
    (commitShape : isHexText 40 commit = true) (nonempty : expected ≠ []) (distinct : expected.Nodup)
    (shapes : ∀ name ∈ expected, isAssetName name = true) :
    (∀ draft, verifiedReadyDraft releases tag commit expected = .ok draft ↔
      IsReadyDraft tag commit expected releases draft) ∧
    ((∃ message, verifiedReadyDraft releases tag commit expected = .error (.notReady message)) ↔
      (¬ ∃ draft, verifiedReadyDraft releases tag commit expected = .ok draft) ∧
        ∃ later draft, CatchesUp tag expected releases later ∧
          verifiedReadyDraft later tag commit expected = .ok draft) ∧
    ((∃ message, verifiedReadyDraft releases tag commit expected = .error (.permanent message)) ↔
      (¬ ∃ draft, verifiedReadyDraft releases tag commit expected = .ok draft) ∧
        ¬ ∃ later draft, CatchesUp tag expected releases later ∧
          verifiedReadyDraft later tag commit expected = .ok draft) := by
  have cases' := fun releases : List Object =>
    @verifiedReadyDraft_cases tag commit expected releases nonemptyTag noSpace commitShape nonempty distinct shapes
  have accepted : ∀ releases draft, verifiedReadyDraft releases tag commit expected = .ok draft ↔
      IsReadyDraft tag commit expected releases draft := by
    intro releases draft
    constructor
    · intro run
      rcases cases' releases with ⟨other, run', ready⟩ | ⟨⟨message, raised⟩, _⟩ | ⟨⟨message, raised⟩, _⟩
      · rw [run] at run'
        cases run'
        exact ready
      · rw [run] at raised
        cases raised
      · rw [run] at raised
        cases raised
    · intro ready
      rcases cases' releases with ⟨other, run, ready'⟩ | ⟨_, _, none⟩ | ⟨_, unsound⟩
      · have same := ready.1
        rw [ready'.1] at same
        cases same
        exact run
      · exact absurd ready (none draft)
      · obtain ⟨only, assets, soundDraft, soundAssets, _⟩ := ready
        exact absurd (.inr ⟨draft, assets, only, soundDraft, soundAssets⟩) unsound
  have reachable : (∃ later draft, CatchesUp tag expected releases later ∧
      verifiedReadyDraft later tag commit expected = .ok draft) ↔ Sound tag commit expected releases := by
    constructor
    · intro ⟨later, draft, run, ok⟩
      obtain ⟨only, assets, soundDraft, soundAssets, _⟩ := (accepted later draft).mp ok
      exact sound_of_catchesUp run (.inr ⟨draft, assets, only, soundDraft, soundAssets⟩)
    · intro sound
      obtain ⟨later, draft, run, ready⟩ := exists_catchesUp sound
      exact ⟨later, draft, run, (accepted later draft).mpr ready⟩
  refine ⟨accepted releases, ?_, ?_⟩
  · rw [reachable]
    rcases cases' releases with ⟨draft, run, _⟩ | ⟨raised, sound, none⟩ | ⟨⟨message, raised⟩, unsound⟩
    · simp [run]
    · exact iff_of_true raised ⟨fun ⟨draft, run⟩ => none draft ((accepted releases draft).mp run), sound⟩
    · simp [raised, unsound]
  · rw [reachable]
    rcases cases' releases with ⟨draft, run, _⟩ | ⟨⟨message, raised⟩, sound, none⟩ | ⟨⟨message, raised⟩, unsound⟩
    · simp [run]
    · simp [raised, sound]
    · simp [raised, unsound]

/-- An empty list is waited for. -/
theorem readyDraftStates_empty :
    (∃ message, verifiedReadyDraft [] (text "sb-v1.0.0") (List.replicate 40 48) [text "manifest.json"] =
      .error (.notReady message)) ∧
    ∃ later draft, CatchesUp (text "sb-v1.0.0") [text "manifest.json"] [] later ∧
      verifiedReadyDraft later (text "sb-v1.0.0") (List.replicate 40 48) [text "manifest.json"] = .ok draft := by
  have raised : ∃ message, verifiedReadyDraft [] (text "sb-v1.0.0") (List.replicate 40 48) [text "manifest.json"] =
      .error (.notReady message) := ⟨_, rfl⟩
  exact ⟨raised, ((readyDraftStates (by decide) (by decide) (by decide) (by decide) (by decide) (by decide)).2.1.mp
    raised).2⟩

end Outcomes

end ExitfyCores.Release

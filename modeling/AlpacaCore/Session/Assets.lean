import AlpacaCore.Schema.RoundTrip
import AlpacaCore.Session.Meaning

/-!
Assets on their way to the asset manager and back.

Neither side meets an exception of the JSON library there: what was decoded once has its
tags and URIs, and so can be encoded and is decoded again.
-/

namespace AlpacaCore.Session

open AlpacaCore.Schema

/-- The asset has a tag and a URI. -/
def AssetInfo.Given (asset : AssetInfo) : Prop :=
  asset.1.written.isSome = true ∧ asset.2.1.written.isSome = true

theorem distinct_assetInfos : assetInfos.Distinct := by
  simp [assetInfos, FieldType.Distinct, Fields.Distinct, Fields.names]

/-- A required field that was read has a value. -/
theorem read_required {σ : Type} {name desc : String} {rest : Fields σ} {field : Schema.Field String}
    {base y : σ} {d : Dict}
    (read : (Fields.cons name desc .required .string rest).read (Schema.Field.make .required, base) d =
      .ok (field, y)) : field.written.isSome = true ∧ rest.read base d = .ok y := by
  cases found : d.find name with
  | none =>
      obtain ⟨required, -⟩ := (Fields.read_absent found).mp read
      cases required
  | some v =>
      obtain ⟨value, -, rfl, others⟩ := (Fields.read_present found).mp read
      exact ⟨rfl, others⟩

theorem given_of_fromDict {d : Dict} {assets : List AssetInfo}
    (decoded : assetInfos.fromDict d = .ok assets) : ∀ asset ∈ assets, asset.Given := by
  have each := mapM_ok.mp decoded
  clear decoded
  generalize d.items = items at each
  induction each with
  | nil => simp
  | @cons v asset items assets read _ ih =>
      obtain ⟨tag, uri, last⟩ := asset
      obtain ⟨tagGiven, others⟩ := read_required read
      obtain ⟨uriGiven, -⟩ := read_required others
      simp only [List.forall_mem_cons]
      exact ⟨⟨tagGiven, uriGiven⟩, ih⟩

/-- A field that has a value and is not marked as set by default. -/
theorem written_isSome {α : Type} {field : Schema.Field α} (given : field.written.isSome = true) :
    field.defaultSet = false ∧ ∃ value, field.value = some value := by
  unfold Schema.Field.written at given
  split at given
  · cases given
  · rename_i marked
    exact ⟨by simpa using marked, Option.isSome_iff_exists.mp given⟩

theorem toDict_of_given {assets : List AssetInfo} (given : ∀ asset ∈ assets, asset.Given) :
    ∃ d, assetInfos.toDict assets = .ok d := by
  suffices each : ∃ items, assets.mapM (fun asset => FieldType.write (.struct (.cons "tag"
      "Asset tag/name" .required .string (.cons "uri" "Asset URI" .required .string .nil)))
      asset .null) = .ok items by
    obtain ⟨items, looped⟩ := each
    exact ⟨.array items, map_ok.mpr ⟨items, looped, rfl⟩⟩
  induction assets with
  | nil => exact ⟨[], rfl⟩
  | cons asset assets ih =>
      obtain ⟨tag, uri, last⟩ := asset
      rw [List.forall_mem_cons] at given
      obtain ⟨items, looped⟩ := ih given.2
      obtain ⟨tagMarked, tagValue, tagSame⟩ : tag.defaultSet = false ∧ ∃ value,
          tag.value = some value := written_isSome given.1.1
      obtain ⟨uriMarked, uriValue, uriSame⟩ : uri.defaultSet = false ∧ ∃ value,
          uri.value = some value := written_isSome given.1.2
      obtain ⟨item, first⟩ : ∃ item, FieldType.write (.struct (.cons "tag" "Asset tag/name"
          .required .string (.cons "uri" "Asset URI" .required .string .nil))) (tag, uri, last)
          .null = .ok item := by
        simp only [FieldType.write, Fields.write, tagMarked, tagSame, uriMarked, uriSame,
          Bool.false_eq_true, if_false]
        exact ⟨_, rfl⟩
      exact ⟨item :: items, by rw [List.mapM_cons, first, looped]; rfl⟩

/-- Assets are decoded from what they were encoded to. -/
theorem fromDict_of_toDict {assets : List AssetInfo} {d : Dict}
    (given : ∀ asset ∈ assets, asset.Given) (encoded : assetInfos.toDict assets = .ok d) :
    ∃ assets', assetInfos.fromDict d = .ok assets' := by
  have restored : assetInfos.Restored assetInfos.empty assets := by
    intro asset member
    obtain ⟨tag, uri, last⟩ := asset
    obtain ⟨tagGiven, uriGiven⟩ := given _ member
    obtain ⟨tagValue, tagWritten⟩ := Option.isSome_iff_exists.mp tagGiven
    obtain ⟨uriValue, uriWritten⟩ := Option.isSome_iff_exists.mp uriGiven
    simp only [FieldType.Restored, Fields.Restored, FieldType.empty, Fields.empty]
    simp only at tagWritten uriWritten
    rw [tagWritten, uriWritten]
    simp
  obtain ⟨assets', decoded, -⟩ := (fromDict_toDict_iff distinct_assetInfos encoded).mpr restored
  exact ⟨assets', decoded⟩

theorem frameOptTo_some {kind : Kind} {f : Frame} {value : kind.Value}
    (decoded : kind.frameOptTo f = .ok (some value)) :
    kind.frameIs f = true ∧ kind.type.fromDict f.data = .ok value := by
  unfold Kind.frameOptTo at decoded
  split at decoded
  · rename_i same
    obtain ⟨_, read, wrapped⟩ := map_ok.mp decoded
    cases wrapped
    exact ⟨same, read⟩
  · cases decoded

/-- Nothing is wrong with the assets of a decoded `load_model`. -/
theorem loadModel_given {f : Frame} {assets : Schema.Field (List AssetInfo)}
    {rest : Schema.Field String × Unit}
    (decoded : OpLoadModel.Params.frameOptTo f = .ok (some (assets, rest))) {infos : List AssetInfo}
    (present : assets.value = some infos) : ∀ asset ∈ infos, asset.Given := by
  obtain ⟨-, read⟩ := frameOptTo_some decoded
  cases found : f.data.find "assets" with
  | none =>
      obtain ⟨-, same, -⟩ := (Fields.read_absent found).mp read
      rw [same] at present
      cases present
  | some v =>
      obtain ⟨value, readAssets, same, -⟩ := (Fields.read_present found).mp read
      rw [same] at present
      cases present
      exact given_of_fromDict readAssets

/-! ### The request and its answer -/

theorem provided_given {env : Env} {assets assets' : List AssetInfo}
    (given : ∀ asset ∈ assets, asset.Given) (provided : AssetMgr.provided env assets = .ok assets') :
    ∀ asset ∈ assets', asset.Given := by
  induction assets generalizing assets' with
  | nil =>
      cases provided
      simp
  | cons asset assets ih =>
      obtain ⟨tag, uri, last⟩ := asset
      rw [List.forall_mem_cons] at given
      unfold AssetMgr.provided at provided
      simp only at provided
      split at provided
      · split at provided
        · cases provided
        · split at provided
          · obtain ⟨rest, others, same⟩ := bind_ok.mp provided
            cases same
            rw [List.forall_mem_cons]
            exact ⟨⟨given.1.1, rfl⟩, ih given.2 others⟩
          · cases provided
      · cases provided

/-- It throws nothing of the JSON library. -/
theorem provided_error {env : Env} {assets : List AssetInfo} {x : Exception}
    (failed : AssetMgr.provided env assets = .error x) : ∃ what, x = .runtime what := by
  induction assets with
  | nil => cases failed
  | cons asset assets ih =>
      obtain ⟨tag, uri, last⟩ := asset
      unfold AssetMgr.provided at failed
      simp only at failed
      split at failed
      · split at failed
        · cases failed
          exact ⟨_, rfl⟩
        · split at failed
          · cases others : AssetMgr.provided env assets with
            | ok rest =>
                rw [others] at failed
                cases failed
            | error y =>
                rw [others] at failed
                cases failed
                exact ih others
          · cases failed
            exact ⟨_, rfl⟩
      · cases failed
        exact ⟨_, rfl⟩

/-- The answer when a model is loaded. -/
theorem recover_loaded (env : Env) (wait : Wait) (params : Model.Params) :
    ∃ g, recover wait (Dummy.loaded env params) = .ok g := by
  unfold Dummy.loaded Model.load
  simp only
  split
  · exact ⟨_, rfl⟩
  · split <;> exact ⟨_, rfl⟩

/-- A frame of the kind is decoded by what its kind says. -/
theorem frameOptTo_eq {kind : Kind} {f : Frame} {value : kind.Value} (same : f.op = kind.id)
    (decoded : kind.type.fromDict f.data = .ok value) : kind.frameOptTo f = .ok (some value) := by
  simp only [Kind.frameOptTo, Kind.frameIs, same, beq_self_eq_true, if_true, decoded]
  rfl

theorem request_made {assets : List AssetInfo} (given : ∀ asset ∈ assets, asset.Given) :
    ∃ request, OpMakeAssetsAvailable.Params.frameFrom assets = .ok request := by
  obtain ⟨d, encoded⟩ := toDict_of_given given
  exact ⟨⟨_, d⟩, bind_ok.mpr ⟨d, encoded, rfl⟩⟩

/-- A request for assets that were decoded before has an answer, and it settles the model. -/
theorem request_answered (env : Env) (splice : String) {assets : List AssetInfo} {request : Frame}
    (given : ∀ asset ∈ assets, asset.Given)
    (made : OpMakeAssetsAvailable.Params.frameFrom assets = .ok request) :
    ∃ res g, AssetMgr.answer env request = .ok (res, .assetMgr) ∧
      Dummy.fetched env splice res = .ok g := by
  obtain ⟨d, encoded, same⟩ := bind_ok.mp made
  cases same
  obtain ⟨assets', decoded⟩ := fromDict_of_toDict given encoded
  have taken : OpMakeAssetsAvailable.Params.frameOptTo ⟨OpMakeAssetsAvailable.Params.id, d⟩ =
      .ok (some assets') := frameOptTo_eq rfl decoded
  unfold AssetMgr.answer
  rw [taken]
  cases found : AssetMgr.provided env assets' with
  | error x =>
      obtain ⟨what, rfl⟩ := provided_error found
      refine ⟨⟨Error.id, .string what⟩, _, ?_, rfl⟩
      simp only [bind, Except.bind, found, recover]
      rfl
  | ok paths =>
      have pathsGiven := provided_given (given_of_fromDict decoded) found
      obtain ⟨d', encoded'⟩ := toDict_of_given pathsGiven
      obtain ⟨assets'', decoded'⟩ := fromDict_of_toDict pathsGiven encoded'
      have framed : OpMakeAssetsAvailable.Return.frameFrom paths =
          .ok ⟨OpMakeAssetsAvailable.Return.id, d'⟩ := bind_ok.mpr ⟨d', encoded', rfl⟩
      have returned : OpMakeAssetsAvailable.Return.frameOptTo
          ⟨OpMakeAssetsAvailable.Return.id, d'⟩ = .ok (some assets'') := frameOptTo_eq rfl decoded'
      obtain ⟨g, settled⟩ := recover_loaded env .runSession
        ⟨(assets''.head?.map fun asset => asset.2.1.materialize "").getD "", splice⟩
      refine ⟨⟨OpMakeAssetsAvailable.Return.id, d'⟩, g, ?_, ?_⟩
      · simp only [bind, Except.bind, found, framed, recover]
        rfl
      · rw [← settled]
        unfold Dummy.fetched
        rw [returned]
        rfl

end AlpacaCore.Session

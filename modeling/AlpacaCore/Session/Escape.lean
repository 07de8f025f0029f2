import AlpacaCore.Session.Assets

/-!
Which frames an exception leaves the loops at.

A `std::runtime_error` never does. What does is an exception of the JSON library, and it
comes from the decoder alone: when the data of an op holds a value of a type its
parameters do not take.
-/

namespace AlpacaCore.Session

open AlpacaCore.Schema

theorem of_frameOptTo (kind : Kind) (f : Frame) :
    Fit.of (kind.frameOptTo f) = .mistyped ↔ kind.Mistyped f := by
  unfold Kind.frameOptTo Kind.Mistyped
  split
  · rename_i same
    have read : Fit.of ((kind.type.fromDict f.data).map some) = kind.type.fit kind.type.empty f.data := by
      rw [← kind.type.of_read]
      unfold FieldType.fromDict
      cases kind.type.read kind.type.empty f.data with
      | ok value => rfl
      | error e => cases e <;> rfl
    simp [read, same]
  · rename_i other
    simp [Fit.of, other]

theorem of_recover (wait : Wait) (x : Except Exception (Frame × Wait)) :
    Fit.of (recover wait x) = .mistyped ↔ Fit.of x = .mistyped := by
  cases x with
  | ok g => exact Iff.rfl
  | error e =>
      cases e with
      | runtime what =>
          constructor
          · intro absurd
            cases absurd
          · intro absurd
            cases absurd
      | json what => exact Iff.rfl

/-- Nothing else escapes. -/
theorem of_rest {α : Type} {x : Except Exception (Option α)}
    {f : Option α → Except Exception (Frame × Wait)} (rest : ∀ a, x = .ok a → Fit.of (f a) ≠ .mistyped) :
    Fit.of (x >>= f) = .mistyped ↔ Fit.of x = .mistyped := by
  rw [Fit.of_bind_mistyped]
  constructor
  · rintro (first | ⟨a, computed, later⟩)
    · exact first
    · exact absurd later (rest a computed)
  · exact .inl

variable (env : Env)

theorem unknownOp_fits (f : Frame) (wait : Wait) :
    Fit.of (do return (← Dummy.unknownOpError f, wait) : Except Exception (Frame × Wait)) ≠
      .mistyped := nofun

theorem loaded_fits (params : Model.Params) : Fit.of (Dummy.loaded env params) ≠ .mistyped := by
  intro mistyped
  obtain ⟨g, settled⟩ := recover_loaded env .runSession params
  have escaped := (of_recover .runSession _).mpr mistyped
  rw [settled] at escaped
  cases escaped

theorem answer_assetMgr (f : Frame) : Fit.of (answer env .assetMgr f) = .mistyped ↔
    Wait.assetMgr.Mistyped f := by
  unfold answer AssetMgr.answer
  rw [of_recover, of_rest]
  · rw [of_frameOptTo]
    simp [Wait.Mistyped, Wait.kinds]
  · intro params decoded
    cases params with
    | none => nofun
    | some assets =>
        have given := given_of_fromDict (frameOptTo_some decoded).2
        cases found : AssetMgr.provided env assets with
        | error x =>
            obtain ⟨what, rfl⟩ := provided_error found
            simp only [found]
            nofun
        | ok paths =>
            obtain ⟨d, encoded⟩ := toDict_of_given (provided_given given found)
            have framed : OpMakeAssetsAvailable.Return.frameFrom paths =
              .ok ⟨OpMakeAssetsAvailable.Return.id, d⟩ := bind_ok.mpr ⟨d, encoded, rfl⟩
            simp only [found, bind, Except.bind, framed]
            nofun

theorem answer_runSession (f : Frame) : Fit.of (answer env .runSession f) = .mistyped ↔
    Wait.runSession.Mistyped f := by
  unfold answer Dummy.answerRunSession
  rw [of_recover, of_rest]
  · rw [of_frameOptTo]
    simp [Wait.Mistyped, Wait.kinds]
  · intro params decoded
    cases params with
    | none => exact unknownOp_fits f _
    | some params =>
        obtain ⟨assets, spliceString, last⟩ := params
        simp only
        cases present : assets.value with
        | none => exact loaded_fits env _
        | some assets =>
            cases assets with
            | nil => exact loaded_fits env _
            | cons asset rest =>
                have given := loadModel_given decoded present
                obtain ⟨request, made⟩ := request_made given
                obtain ⟨res, g, answered, settled⟩ := request_answered env
                  (spliceString.materialize "") given made
                simp only [made, bind, Except.bind, answered, settled]
                nofun

theorem answer_runModel (model : Model) (f : Frame) :
    Fit.of (answer env (.runModel model) f) = .mistyped ↔ (Wait.runModel model).Mistyped f := by
  unfold answer Dummy.answerRunModel
  rw [of_recover, of_rest]
  · rw [of_frameOptTo]
    simp [Wait.Mistyped, Wait.kinds]
  · intro params decoded
    cases params with
    | none => exact unknownOp_fits f _
    | some params =>
        obtain ⟨cutoff, last⟩ := params
        simp only
        unfold Instance.make
        split
        · split <;> nofun
        · nofun

theorem answer_stream (data : List String) (f : Frame) :
    Fit.of (Dummy.answerStream data f) = .mistyped ↔ OpStream.Params.Mistyped f := by
  unfold Dummy.answerStream
  rw [of_rest, of_frameOptTo]
  intro params _
  cases params with
  | none => exact unknownOp_fits f _
  | some params =>
      simp only
      split <;> nofun

theorem answer_runInstance (data : List String) (f : Frame) :
    Fit.of (answer env (.runInstance data) f) = .mistyped ↔ (Wait.runInstance data).Mistyped f := by
  unfold answer Dummy.answerRunInstance
  rw [of_recover, Fit.of_bind_mistyped, of_frameOptTo]
  simp only [Wait.Mistyped, Wait.kinds, List.mem_cons, List.not_mem_nil, or_false, exists_eq_or_imp,
    exists_eq_left]
  apply or_congr_right
  constructor
  · rintro ⟨params, decoded, mistyped⟩
    cases params with
    | some params =>
        unfold Dummy.run at mistyped
        simp only at mistyped
        split at mistyped <;> cases mistyped
    | none => exact (answer_stream data f).mp mistyped
  · intro mistyped
    have op : f.op = "stream" := by simpa [Kind.frameIs, OpStream.Params] using mistyped.1
    refine ⟨none, ?_, (answer_stream data f).mpr mistyped⟩
    simp [Kind.frameOptTo, Kind.frameIs, OpRun.Params, op]

/-- **What escapes.** An exception leaves the loop at a frame exactly when the data of the
frame is not what the op takes. -/
theorem answer_escapes (wait : Wait) (f : Frame) (forClient : wait.forClient = true) :
    (∃ what, answer env wait f = .error (.json what)) ↔ wait.Mistyped f := by
  rw [← Fit.of_eq_mistyped]
  cases wait with
  | assetMgr => exact answer_assetMgr env f
  | runSession => exact answer_runSession env f
  | runModel model => exact answer_runModel env model f
  | runInstance data => exact answer_runInstance env data f
  | fetch splice => cases forClient

end AlpacaCore.Session

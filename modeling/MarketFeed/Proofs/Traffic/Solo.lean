import MarketFeed.Proofs.Traffic.Record
import Mathlib.Logic.Relation

/-!
# A delivery without interruption

Processing a message from the first step to the last takes the steps of a delivery one after the
other, while no other delivery moves. So what the program does with one message is a stretch of
the traffic, in surroundings that answer as the setting says and in which nothing but time
passes while the store is asked. What the surroundings write down of the outputs they accept is
what the moves tell.
-/

namespace MarketFeed

/-- The surroundings answer as the setting says, and while the store is asked no delivery
moves. -/
structure Surroundings.Fits {σ : Type} (around : Surroundings σ) (setting : Setting) : Prop where
  backfills : around.backfills = setting.backfills
  replies : ∀ id s x, setting.replies id (around.lookup id s x).1
  passes : ∀ id s x, Relation.ReflTransGen Ambient s (around.lookup id s x).2.1

/-- What the surroundings write down, from one state to another, are the outputs they accept. -/
structure Surroundings.Notes {σ : Type} (around : Surroundings σ)
    (noted : σ → List Output → σ → Prop) : Prop where
  nothing : ∀ x, noted x [] x
  append : ∀ {x y z outputs more}, noted x outputs y → noted y more z → noted x (outputs ++ more) z
  lookup : ∀ id s x, noted x [] (around.lookup id s x).2.2
  accept : ∀ {output x y}, around.publish output x = (.ok (), y) → noted x [output] y
  refuse : ∀ {output x y e}, around.publish output x = (.error e, y) → noted x [] y

/-- The outputs that the sink accepted, without where they came from. -/
def outputsIn {ι : Type} (moves : List (Move ι)) : List Output :=
  (publications moves).map Publication.output

/-- One move more is one output more that was accepted, or none. -/
theorem outputsIn_snoc {ι : Type} (moves : List (Move ι)) (move : Move ι) :
    outputsIn (moves ++ [move]) =
      outputsIn moves ++ (move.publication?.map Publication.output).toList := by
  cases h : move.publication? <;> simp [outputsIn, publications, h]

/-- How far a delivery has come when its message was processed with a result: it has finished
with the outcome, or it has failed. -/
def Progress.EndsAs (progress : Progress) : Except PublishError Outcome → Prop
  | .ok outcome => progress.outcome? = some outcome
  | .error _ => progress = .failed

/-- What one delivery does while no other moves. -/
inductive Solo {ι : Type} (setting : Setting) (i : ι) (intake : Intake) (progress : Progress)
    (s : Shared) : List (Move ι) → Progress → Shared → Prop
  | nil : Solo setting i intake progress s [] progress s
  | advance {moves : List (Move ι)} {move : Move ι} {mid next : Progress} {s₁ s₂ : Shared}
      (hsolo : Solo setting i intake progress s moves mid s₁)
      (h : Advance setting i intake mid s₁ move next s₂) :
      Solo setting i intake progress s (moves ++ [move]) next s₂
  | ambient {moves : List (Move ι)} {mid : Progress} {s₁ s₂ : Shared}
      (hsolo : Solo setting i intake progress s moves mid s₁) (h : Ambient s₁ s₂) :
      Solo setting i intake progress s (moves ++ [.elapsed]) mid s₂

namespace Solo

variable {ι : Type} {setting : Setting} {i : ι} {intake : Intake} {progress mid : Progress}
  {s s₁ s₂ : Shared} {moves : List (Move ι)}

/-- A delivery pauses while time passes. -/
theorem ambients (h : Solo setting i intake progress s moves mid s₁)
    (hpasses : Relation.ReflTransGen Ambient s₁ s₂) :
    ∃ moves', Solo setting i intake progress s moves' mid s₂ ∧
      outputsIn moves' = outputsIn moves := by
  induction hpasses with
  | refl => exact ⟨moves, h, rfl⟩
  | tail _ hambient ih =>
    obtain ⟨moves', h', hsame⟩ := ih
    refine ⟨_, h'.ambient hambient, ?_⟩
    rw [outputsIn_snoc, hsame]
    exact List.append_nil _

variable {σ : Type} {around : Surroundings σ} {noted : σ → List Output → σ → Prop} {x₀ x x' : σ}
  {s' : Shared} {result : Except PublishError Outcome}

/-- Bringing a verdict to the sink takes the steps of a delivery from there. -/
theorem emit (hnotes : around.Notes noted) {started : Instant} {verdict : Verdict}
    (h : Solo setting i intake progress s moves (.decided started verdict) s₁)
    (hnoted : noted x₀ (outputsIn moves) x)
    (hemit : (setting.delivery intake started).emit around verdict s₁ x = (result, s', x')) :
    ∃ moves' progress', Solo setting i intake progress s moves' progress' s' ∧
      progress'.EndsAs result ∧ noted x₀ (outputsIn moves') x' := by
  unfold Delivery.emit at hemit
  split at hemit
  · rename_i s₂ hcommit
    cases hemit
    refine ⟨_, _, h.advance (.forgo hcommit), rfl, ?_⟩
    simpa [outputsIn_snoc, Move.publication?] using hnoted
  · rename_i output s₂ hcommit
    have hsending := h.advance (.commit hcommit)
    split at hemit
    · rename_i y hpublish
      cases hemit
      refine ⟨_, _, (hsending.advance .publish).advance .accept, rfl, ?_⟩
      rw [outputsIn_snoc, outputsIn_snoc, outputsIn_snoc]
      simpa [Move.publication?] using hnotes.append hnoted (hnotes.accept hpublish)
    · rename_i e y hpublish
      cases hemit
      refine ⟨_, _, (hsending.advance .refuse).advance .withdraw, rfl, ?_⟩
      rw [outputsIn_snoc, outputsIn_snoc, outputsIn_snoc]
      simpa [Move.publication?] using hnotes.append hnoted (hnotes.refuse hpublish)

/-- Processing a message takes the steps of a delivery from the first to the last. -/
theorem process (hfits : around.Fits setting) (hnotes : around.Notes noted)
    (hprocess : MarketFeed.process around intake s x = (result, s', x')) :
    ∃ moves progress, Solo setting i intake .waiting s moves progress s' ∧
      progress.EndsAs result ∧ noted x (outputsIn moves) x' := by
  have hnil : Solo setting i intake .waiting s [] .waiting s := .nil
  have hnoted : noted x [] x := hnotes.nothing x
  have hdelivery : (⟨intake, around.backfills, s.instant⟩ : Delivery) =
      setting.delivery intake s.instant := by
    rw [hfits.backfills]
    rfl
  rw [MarketFeed.process, hdelivery, Delivery.run] at hprocess
  split at hprocess
  · rename_i s₂ hcheck
    cases hprocess
    exact ⟨_, _, hnil.advance (.drop hcheck), rfl, hnoted⟩
  · rename_i verdict s₂ hcheck
    exact (hnil.advance (.settle hcheck)).emit hnotes hnoted hprocess
  · rename_i event quote since s₂ hcheck
    have hreply := hfits.replies quote.instrumentId s₂ x
    obtain ⟨moves, hasked, hsame⟩ :=
      (hnil.advance (.ask hcheck)).ambients (hfits.passes quote.instrumentId s₂ x)
    refine (hasked.advance (.reply hreply rfl)).emit hnotes ?_ hprocess
    rw [outputsIn_snoc, hsame]
    exact hnotes.append hnoted (hnotes.lookup quote.instrumentId s₂ x)

end Solo

end MarketFeed

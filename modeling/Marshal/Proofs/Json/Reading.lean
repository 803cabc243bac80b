import Marshal.Json.Read
import Marshal.Proofs.Json.Drafts

/-!
# A printed value is read as itself

The draft of a plain value shows that value to whoever reads it, as long as there is room for all
of its levels.

## Main results

* `shows_ofValue` — the draft of a value shows that value.
* `read_print` — a printed value is read as the reader reads what shows it.
-/

namespace Marshal

open Data

namespace Data
namespace Value

theorem depth_le_depthItems {v : Value} {items : List Value} (h : v ∈ items) :
    v.depth ≤ depthItems items := by
  induction items with
  | nil => cases h
  | cons w ws ih =>
    rw [depthItems]
    rcases List.mem_cons.1 h with rfl | h
    · exact Nat.le_max_left _ _
    · exact Nat.le_trans (ih h) (Nat.le_max_right _ _)

theorem depth_le_depthEntries {e : String × Value} {entries : List (String × Value)}
    (h : e ∈ entries) : e.2.depth ≤ depthEntries entries := by
  induction entries with
  | nil => cases h
  | cons f fs ih =>
    rw [depthEntries]
    rcases List.mem_cons.1 h with rfl | h
    · exact Nat.le_max_left _ _
    · exact Nat.le_trans (ih h) (Nat.le_max_right _ _)

end Value
end Data

namespace Json

/-! ### Putting the draft of a value aside -/

theorem keepItems_ofItems {room : Nat} {vs : List Value}
    (h : ∀ v ∈ vs, (Draft.ofValue v).keep room = .ok v) :
    Draft.keepItems room (Draft.ofItems vs) = .ok vs := by
  induction vs with
  | nil => rfl
  | cons v vs ih =>
    rw [Draft.ofItems, Draft.keepItems, h v List.mem_cons_self,
      ih fun w hw => h w (List.mem_cons_of_mem v hw)]
    rfl

theorem keepEntries_ofEntries {room : Nat} {es : List (String × Value)}
    (h : ∀ e ∈ es, (Draft.ofValue e.2).keep room = .ok e.2) :
    Draft.keepEntries room (Draft.ofEntries es) = .ok es := by
  induction es with
  | nil => rfl
  | cons e es ih =>
    rw [Draft.ofEntries, Draft.keepEntries, h e List.mem_cons_self,
      ih fun f hf => h f (List.mem_cons_of_mem e hf)]
    rfl

theorem keep_ofValue {v : Value} (h : v.Plain) {room : Nat} (hroom : v.depth ≤ room) :
    (Draft.ofValue v).keep room = .ok v := by
  induction h generalizing room with
  | natural => rfl
  | text => rfl
  | seq _ ih =>
    rw [Value.depth] at hroom
    have hitems := keepItems_ofItems fun v hv =>
      ih v hv (Nat.le_trans (Value.depth_le_depthItems hv) (Nat.le_sub_one_of_lt hroom))
    rw [Draft.ofValue, Draft.keep, if_neg (by omega), hitems]
    rfl
  | map _ ih =>
    rw [Value.depth] at hroom
    have hentries := keepEntries_ofEntries fun e he =>
      ih e he (Nat.le_trans (Value.depth_le_depthEntries he) (Nat.le_sub_one_of_lt hroom))
    rw [Draft.ofValue, Draft.keep, if_neg (by omega), hentries]
    rfl

/-! ### Looking at the draft of a value -/

/-- The draft of a value shows that value, if there is room for its levels. -/
theorem shows_ofValue {v : Value} (h : v.Plain) {room : Nat} (hroom : v.depth ≤ room) :
    Shows (⟨room, .ofValue v⟩ : At) v := by
  induction h generalizing room with
  | natural => exact .natural rfl rfl
  | text => exact .text rfl rfl (fun _ => rfl) fun _ => rfl
  | @seq items hplain ih =>
    have hkeep := keep_ofValue (.seq hplain) hroom
    rw [Value.depth] at hroom
    have hparts : List.Forall₂ Shows
        (items.map fun v => (⟨room - 1, .ofValue v⟩ : At)) items := by
      rw [List.forall₂_map_left_iff, List.forall₂_same]
      exact fun v hv =>
        ih v hv (Nat.le_trans (Value.depth_le_depthItems hv) (Nat.le_sub_one_of_lt hroom))
    refine .seq ?_ hkeep hparts
    show At.look _ = _
    simp only [At.look, Draft.ofValue, At.enter, if_neg (show ¬room = 0 by omega),
      Draft.ofItems_eq_map, List.map_map]
    rfl
  | @map entries hplain ih =>
    have hkeep := keep_ofValue (.map hplain) hroom
    rw [Value.depth] at hroom
    have hparts : List.Forall₂ Shows
        (entries.map fun e => (⟨room - 1, .ofValue e.2⟩ : At)) (entries.map Prod.snd) := by
      rw [List.forall₂_map_left_iff, List.forall₂_map_right_iff, List.forall₂_same]
      exact fun e he =>
        ih e he (Nat.le_trans (Value.depth_le_depthEntries he) (Nat.le_sub_one_of_lt hroom))
    refine .map ?_ hkeep hparts
    show At.look _ = _
    simp only [At.look, Draft.ofValue, At.enter, if_neg (show ¬room = 0 by omega),
      Draft.ofEntries_eq_map, List.map_map, List.zip_map']
    rfl

/-- **A printed value is read as whoever reads it takes it**, if it is not nested too deep. -/
theorem read_print {α : Type} {decode : At → Except Fault α} {v : Value} {a : α} (h : v.Plain)
    (hdepth : v.depth ≤ deepest) (hreads : Reads decode v a) :
    read decode (Raw.ofText (print v)) = .ok a := by
  rw [read, ofRaw_print h]
  simp only [hreads _ (shows_ofValue h hdepth)]
  rfl

end Json
end Marshal

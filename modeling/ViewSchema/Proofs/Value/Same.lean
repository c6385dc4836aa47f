import Mathlib.Data.List.Perm.Subperm
import ViewSchema.Proofs.Number.Quantity
import ViewSchema.Proofs.Record

/-!
Sameness of values is an equivalence between definite values, in which the keys of every record are
distinct and no not-a-number lacks an origin.
-/

namespace ViewSchema.Value

/-- Values that are the same as themselves: their records have distinct keys, and there is no
not-a-number without an origin in them. -/
inductive IsDefinite : Value → Prop where
  | null : IsDefinite .null
  | bool (b : Bool) : IsDefinite (.bool b)
  | int (n : Int) : IsDefinite (.int n)
  | float {d : Double} (known : d ≠ .nan none) : IsDefinite (.float d)
  | text (s : String) : IsDefinite (.text s)
  | list {vs : List Value} (items : ∀ v ∈ vs, IsDefinite v) : IsDefinite (.list vs)
  | map {r : Record} (keys : r.keys.Nodup) (values : ∀ e ∈ r, IsDefinite e.2) :
      IsDefinite (.map r)

/-- The quantity that a value stands for, if it is a number. -/
def quantity? (v : Value) : Option Double.Quantity := v.number?.bind Double.quantity?

theorem sameNumber_iff (v w : Value) :
    v.sameNumber w = true ↔ v.quantity?.isSome ∧ v.quantity? = w.quantity? := by
  unfold sameNumber quantity?
  cases v.number? with
  | none => simp
  | some x =>
    cases w.number? with
    | none => cases h : x.quantity? <;> simp [h]
    | some y => exact x.sameValue_iff y

section Kinds

variable {w : Value}

theorem same_null_iff : same .null w = true ↔ w = .null := by
  cases w <;> simp [same]

theorem same_text_iff {s : String} : same (.text s) w = true ↔ w = .text s := by
  cases w <;> simp [same, eq_comm (a := s)]

/-- A number is the same as the numbers of its quantity. -/
theorem same_number_iff {v : Value} (h : v.number?.isSome) :
    v.same w = true ↔ v.quantity?.isSome ∧ v.quantity? = w.quantity? := by
  rw [← sameNumber_iff]
  cases v with
  | bool b | int n | float d => rw [same]
  | null | text _ | list _ | map _ => cases h

theorem sameItems_iff (xs ys : List Value) :
    sameItems xs ys = true ↔ List.Forall₂ (fun x y => x.same y = true) xs ys := by
  induction xs generalizing ys with
  | nil => cases ys <;> simp [sameItems]
  | cons x xs ih => cases ys <;> simp [sameItems, ih]

theorem same_list_iff {xs : List Value} :
    same (.list xs) w = true ↔ ∃ ys, w = .list ys ∧ xs.length = ys.length ∧
      ∀ i (hx : i < xs.length) (hy : i < ys.length), (xs[i]).same ys[i] = true := by
  cases w with
  | list ys => simp [same, sameItems_iff, List.forall₂_iff_get]
  | null | bool _ | int _ | float _ | text _ | map _ => simp [same]

theorem sameEntries_iff (xs ys : Record) :
    sameEntries xs ys = true ↔ ∀ e ∈ xs, ∃ y, ys.find? e.1 = some y ∧ e.2.same y = true := by
  induction xs with
  | nil => simp [sameEntries]
  | cons e xs ih =>
    obtain ⟨key, x⟩ := e
    rw [sameEntries, Bool.and_eq_true, ih, List.forall_mem_cons]
    refine and_congr_left fun _ => ?_
    rw [Record.find?]
    cases ys.lookup key <;> simp

theorem same_map_iff {xs : Record} :
    same (.map xs) w = true ↔ ∃ ys, w = .map ys ∧ xs.length = ys.length ∧
      ∀ e ∈ xs, ∃ y, Record.find? ys e.1 = some y ∧ e.2.same y = true := by
  cases w with
  | map ys => simp [same, sameEntries_iff]
  | null | bool _ | int _ | float _ | text _ | list _ => simp [same]

end Kinds

variable {u v w : Value}

theorem isSome_number_of_quantity (h : v.quantity?.isSome) : v.number?.isSome := by
  cases hnumber : v.number? with
  | none => simp [quantity?, hnumber] at h
  | some _ => rfl

theorem same_trans_of_number (hnumber : u.number?.isSome) (huv : u.same v) (hvw : v.same w) :
    u.same w := by
  obtain ⟨hknown, hequal⟩ := (same_number_iff hnumber).mp huv
  have hv : v.number?.isSome := isSome_number_of_quantity (hequal ▸ hknown)
  obtain ⟨-, hequal'⟩ := (same_number_iff hv).mp hvw
  exact (same_number_iff hnumber).mpr ⟨hknown, hequal.trans hequal'⟩

theorem same_symm_of_number (hnumber : v.number?.isSome) (h : v.same w) : w.same v := by
  obtain ⟨hknown, hequal⟩ := (same_number_iff hnumber).mp h
  have hw : w.quantity?.isSome := hequal ▸ hknown
  exact (same_number_iff (isSome_number_of_quantity hw)).mpr ⟨hw, hequal.symm⟩

namespace IsDefinite

theorem quantity_known (hv : v.IsDefinite) (h : v.number?.isSome) : v.quantity?.isSome := by
  cases hv with
  | bool b | int n => rfl
  | float known =>
    rename_i d
    match d, known with
    | .nan none, known => exact absurd rfl known
    | .nan (some _), _ | .infinite _, _ | .finite _ _ _, _ => rfl
  | null | text _ | list _ | map _ _ => cases h

theorem same_refl (hv : v.IsDefinite) : v.same v = true := by
  induction hv with
  | null => rfl
  | bool b => exact (same_number_iff rfl).mpr ⟨rfl, rfl⟩
  | int n => exact (same_number_iff rfl).mpr ⟨rfl, rfl⟩
  | float known => exact (same_number_iff rfl).mpr ⟨quantity_known (.float known) rfl, rfl⟩
  | text s => exact same_text_iff.mpr rfl
  | list _ ih => exact same_list_iff.mpr ⟨_, rfl, rfl, fun i hi _ => ih _ (List.getElem_mem hi)⟩
  | map keys _ ih =>
    exact same_map_iff.mpr ⟨_, rfl, rfl, fun e he => ⟨e.2, Record.find?_of_mem keys he, ih e he⟩⟩

theorem same_trans (hu : u.IsDefinite) (huv : u.same v) (hvw : v.same w) : u.same w := by
  induction hu generalizing v w with
  | bool _ | int _ | float _ => exact same_trans_of_number rfl huv hvw
  | null =>
    obtain rfl := same_null_iff.mp huv
    exact hvw
  | text s =>
    obtain rfl := same_text_iff.mp huv
    exact hvw
  | list _ ih =>
    obtain ⟨ys, rfl, hlength, hitems⟩ := same_list_iff.mp huv
    obtain ⟨zs, rfl, hlength', hitems'⟩ := same_list_iff.mp hvw
    refine same_list_iff.mpr ⟨zs, rfl, hlength.trans hlength', fun i hx hz => ?_⟩
    have hy : i < ys.length := hlength ▸ hx
    exact ih _ (List.getElem_mem hx) (hitems i hx hy) (hitems' i hy hz)
  | map _ _ ih =>
    obtain ⟨ys, rfl, hlength, hentries⟩ := same_map_iff.mp huv
    obtain ⟨zs, rfl, hlength', hentries'⟩ := same_map_iff.mp hvw
    refine same_map_iff.mpr ⟨zs, rfl, hlength.trans hlength', fun e he => ?_⟩
    obtain ⟨y, hy, hsame⟩ := hentries e he
    obtain ⟨z, hz, hsame'⟩ := hentries' _ (Record.mem_of_find? hy)
    exact ⟨z, hz, ih e he hsame hsame'⟩

theorem same_symm (hv : v.IsDefinite) (hw : w.IsDefinite) (h : v.same w) : w.same v := by
  induction hv generalizing w with
  | bool _ | int _ | float _ => exact same_symm_of_number rfl h
  | null =>
    obtain rfl := same_null_iff.mp h
    exact h
  | text s =>
    obtain rfl := same_text_iff.mp h
    exact h
  | list _ ih =>
    obtain ⟨ys, rfl, hlength, hitems⟩ := same_list_iff.mp h
    cases hw with
    | list definite =>
      refine same_list_iff.mpr ⟨_, rfl, hlength.symm, fun i hy hx => ?_⟩
      exact ih _ (List.getElem_mem hx) (definite _ (List.getElem_mem hy)) (hitems i hx hy)
  | map keys _ ih =>
    rename_i xs _
    obtain ⟨ys, rfl, hlength, hentries⟩ := same_map_iff.mp h
    cases hw with
    | map otherKeys definite =>
      -- As many distinct keys, all of them in the other record, leave no key of it out.
      have hsub : xs.keys ⊆ Record.keys ys := fun key hkey => by
        obtain ⟨e, he, rfl⟩ := List.mem_map.mp hkey
        obtain ⟨y, hy, -⟩ := hentries e he
        exact Record.mem_keys_of_mem (Record.mem_of_find? hy)
      have hperm : xs.keys.Perm (Record.keys ys) :=
        (List.Nodup.subperm keys hsub).perm_of_length_le (by simp [Record.keys, hlength])
      refine same_map_iff.mpr ⟨xs, rfl, hlength.symm, fun e he => ?_⟩
      obtain ⟨⟨key, x⟩, hx, hkey⟩ := List.mem_map.mp (hperm.mem_iff.mpr (Record.mem_keys_of_mem he))
      obtain rfl : key = e.1 := hkey
      obtain ⟨y, hy, hsame⟩ := hentries _ hx
      obtain rfl : e.2 = y := Option.some.inj ((Record.find?_of_mem otherKeys he).symm.trans hy)
      exact ⟨x, Record.find?_of_mem keys hx, ih _ hx (definite e he) hsame⟩

end IsDefinite

end ViewSchema.Value

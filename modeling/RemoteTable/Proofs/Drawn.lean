import RemoteTable.Token.Supply

/-!
# Drawn tokens

A supply only moves forward: `Follows` relates it to itself after more draws. If the tokens drawn by then differ,
so do those drawn earlier, and different positions of the sequence give different tokens.
-/

namespace RemoteTable.Supply

/-- The supply after more tokens have been drawn. -/
structure Follows (s t : Supply) : Prop where
  draw : t.draw = s.draw
  used : s.used ≤ t.used

theorem Follows.refl (s : Supply) : Follows s s := ⟨rfl, Nat.le_refl _⟩

theorem Follows.trans {s t u : Supply} (h : Follows s t) (h' : Follows t u) : Follows s u :=
  ⟨h'.draw.trans h.draw, Nat.le_trans h.used h'.used⟩

instance (s : Supply) : Decidable s.Distinct :=
  inferInstanceAs (Decidable (∀ i < s.used, ∀ j < s.used, s.draw i = s.draw j → i = j))

theorem Distinct.of_follows {s t : Supply} (ht : t.Distinct) (h : Follows s t) : s.Distinct := by
  intro i hi j hj heq
  exact ht i (Nat.lt_of_lt_of_le hi h.used) j (Nat.lt_of_lt_of_le hj h.used) (by rw [h.draw, heq])

theorem Distinct.nodup_map {s : Supply} (hs : s.Distinct) {positions : List Nat} (hnodup : positions.Nodup)
    (hused : ∀ i ∈ positions, i < s.used) : (positions.map s.draw).Nodup := by
  rw [List.nodup_iff_pairwise_ne, List.pairwise_map]
  refine List.Pairwise.imp_of_mem (fun {i j} hi hj hne heq => hne ?_) (List.nodup_iff_pairwise_ne.1 hnodup)
  exact hs i (hused i hi) j (hused j hj) heq

/-- The tokens drawn from a supply until it has become another. -/
def drawnUntil (s t : Supply) : List Token := (List.range' s.used (t.used - s.used)).map s.draw

/-- The tokens drawn between two supplies differ from each other and from those that were there before. -/
structure Unmet (s t : Supply) (met : List Token) : Prop where
  nodup : (s.drawnUntil t).Nodup
  unmet : ∀ x ∈ s.drawnUntil t, x ∉ met

theorem drawnUntil_append {s t u : Supply} (h : Follows s t) (h' : Follows t u) :
    s.drawnUntil u = s.drawnUntil t ++ t.drawnUntil u := by
  have hst := h.used
  have htu := h'.used
  have hsplit : u.used - s.used = t.used - s.used + (u.used - t.used) := by omega
  have hstart : s.used + (t.used - s.used) = t.used := by omega
  rw [drawnUntil, drawnUntil, drawnUntil, hsplit, ← List.range'_append_1, List.map_append, hstart, h.draw]

theorem Unmet.later {s t u : Supply} {met : List Token} (h : Unmet s u met) (hst : Follows s t) (htu : Follows t u) :
    Unmet t u met := by
  obtain ⟨hnodup, hunmet⟩ := h
  rw [drawnUntil_append hst htu] at hnodup hunmet
  exact ⟨(List.nodup_append.1 hnodup).2.1, fun x hx => hunmet x (List.mem_append_right _ hx)⟩

theorem Unmet.mono {s t : Supply} {met fewer : List Token} (h : Unmet s t met) (hfewer : ∀ x ∈ fewer, x ∈ met) :
    Unmet s t fewer :=
  ⟨h.nodup, fun x hx hmet => h.unmet x hx (hfewer x hmet)⟩

/-- If no token is drawn twice, those drawn later have not been met before. -/
theorem Distinct.unmet {s t u : Supply} (hu : u.Distinct) (hst : Follows s t) (htu : Follows t u) :
    Unmet t u (s.drawnUntil t) := by
  have hsu := hst.trans htu
  have hnodup : (s.drawnUntil u).Nodup := by
    unfold drawnUntil
    rw [← hsu.draw]
    refine hu.nodup_map (List.nodup_range' ..) fun i hi => ?_
    have hused := hsu.used
    have hlt := (List.mem_range'_1.1 hi).2
    omega
  rw [drawnUntil_append hst htu] at hnodup
  obtain ⟨-, hlater, hdisjoint⟩ := List.nodup_append.1 hnodup
  exact ⟨hlater, fun x hx hbefore => hdisjoint x hbefore x hx rfl⟩

end RemoteTable.Supply

import IotCollector.Main.Pipeline

namespace IotCollector.Pipeline

variable {n : Nat} {s s' : Pipeline n}

theorem ingressStep_frame {proto : Nat} {f : EnvFrame} (h : s.ingressStep proto f = some s') :
    ∃ stats, s' = { s.setStats stats with q1 := (s.q1.pushTry f).snd } := by
  unfold ingressStep at h
  split at h <;> cases h
  exact ⟨_, rfl⟩

theorem workerStep_frame {i : Fin n} (h : s.workerStep i = some s') :
    ∃ pc q2, s' = { s.setWorker i pc with q2 := q2 } ∧
      (q2 = s.q2 ∨ ∃ out, s.q2.popBatch s.running ringqBatch = some (out, q2)) := by
  unfold workerStep at h
  split at h
  case h_1 =>
    obtain ⟨r, hr, rfl⟩ := Option.map_eq_some_iff.mp h
    split <;> exact ⟨_, _, rfl, .inr ⟨_, hr⟩⟩
  case h_4 => cases h
  all_goals
    cases h
    exact ⟨_, s.q2, rfl, .inl rfl⟩

theorem mainStep_frame (h : s.mainStep = some s') :
    ∃ stop pc, s' = { s with stop := stop, main := pc } := by
  unfold mainStep at h
  split at h <;> (try split at h) <;> (try split at h) <;> cases h <;> exact ⟨_, _, rfl⟩

end IotCollector.Pipeline

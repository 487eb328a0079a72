import Netspy.Impl.ReadCapped

/-!
# The same limit on both paths

Without a declared size over the limit both paths take the same chunks and make the same
of them (`collect_loop`). With one, `read_capped` raises before it takes a chunk, but
`_stream` asks it only when it has collected them. So the paths differ in what they take
if there is something to take, or to wait for (`stream_eq_iff`).
-/

namespace Netspy

namespace ReadCapped

variable {int : String → Option Int} {limit : Int} {body : Body} {declared : Option String}

theorem loop_over {buf chunk : List UInt8} (h : limit < ↑(buf.length + chunk.length)) (ended : Bool)
    (chunks : List (List UInt8)) : loop limit buf ended (chunk :: chunks) = (.tooLarge, 1) := by
  rw [loop]
  dsimp only
  rw [List.length_append, if_pos h]

theorem loop_under {buf chunk : List UInt8} (h : ¬ limit < ↑(buf.length + chunk.length)) (ended : Bool)
    (chunks : List (List UInt8)) :
    loop limit buf ended (chunk :: chunks) =
      ((loop limit (buf ++ chunk) ended chunks).1, (loop limit (buf ++ chunk) ended chunks).2 + 1) := by
  rw [loop]
  dsimp only
  rw [List.length_append, if_neg h]

theorem collect_over {total : Nat} {chunk : List UInt8} (h : 0 < limit ∧ limit < ↑(total + chunk.length))
    (ended : Bool) (chunks : List (List UInt8)) : collect limit total ended (chunk :: chunks) = ([chunk], true) := by
  rw [collect]
  dsimp only
  rw [if_pos h]

theorem collect_under {total : Nat} {chunk : List UInt8} (h : ¬ (0 < limit ∧ limit < ↑(total + chunk.length)))
    (ended : Bool) (chunks : List (List UInt8)) :
    collect limit total ended (chunk :: chunks) =
      (chunk :: (collect limit (total + chunk.length) ended chunks).1,
        (collect limit (total + chunk.length) ended chunks).2) := by
  rw [collect]
  dsimp only
  rw [if_neg h]

/-- Without a limit the loop of `_stream` takes all chunks. -/
theorem collect_unlimited (h : limit ≤ 0) (total : Nat) (ended : Bool) (chunks : List (List UInt8)) :
    collect limit total ended chunks = (chunks, ended) := by
  induction chunks generalizing total with
  | nil => rfl
  | cons chunk chunks ih =>
    have hlimit : ¬ (0 < limit ∧ limit < ↑(total + chunk.length)) := by omega
    rw [collect_under hlimit, ih]

/-- What the loop of `_stream` has collected is what the loop of `read_capped` takes, and
makes the same of. -/
theorem collect_loop (h : 0 < limit) (buf : List UInt8) (ended : Bool) (chunks : List (List UInt8)) :
    (collect limit buf.length ended chunks).1.length = (loop limit buf ended chunks).2 ∧
      (loop limit buf ended chunks).1 =
        if (collect limit buf.length ended chunks).2 then
          (loop limit buf true (collect limit buf.length ended chunks).1).1
        else .waiting := by
  induction chunks generalizing buf with
  | nil =>
    refine ⟨rfl, ?_⟩
    cases ended <;> rfl
  | cons chunk chunks ih =>
    by_cases hover : limit < ↑(buf.length + chunk.length)
    · rw [collect_over ⟨h, hover⟩, loop_over hover]
      refine ⟨rfl, ?_⟩
      rw [loop_over hover]
      rfl
    · obtain ⟨hlen, hout⟩ := ih (buf ++ chunk)
      rw [List.length_append] at hlen hout
      rw [collect_under (fun hc => hover hc.2), loop_under hover]
      refine ⟨?_, ?_⟩
      · show _ + 1 = _ + 1
        rw [hlen]
      · rw [loop_under hover]
        exact hout

theorem collect_eq_nil {total : Nat} {ended : Bool} {chunks : List (List UInt8)} :
    (collect limit total ended chunks).1 = [] ↔ chunks = [] := by
  cases chunks with
  | nil => exact ⟨fun _ => rfl, fun _ => rfl⟩
  | cons chunk chunks =>
    refine ⟨fun h => ?_, nofun⟩
    rw [collect] at h
    dsimp only at h
    split at h
    · cases h
    · cases h

theorem stream_unlimited (h : limit ≤ 0) : stream int limit body declared = download int limit body declared := by
  simp only [stream, download, readCapped, if_pos h, collect_unlimited h, join, if_true]

theorem stream_undeclared (h : 0 < limit) (hover : declaredOver int limit declared = false) :
    stream int limit body declared = download int limit body declared := by
  obtain ⟨hlen, hout⟩ := collect_loop h [] body.ended body.chunks
  simp only [stream, download, readCapped, if_neg (Int.not_le.mpr h), hover, if_neg Bool.false_ne_true]
  exact Prod.ext hout.symm hlen

theorem download_declared (h : 0 < limit) (hover : declaredOver int limit declared = true) :
    download int limit body declared = (.tooLarge, 0) := by
  rw [download, readCapped, if_neg (Int.not_le.mpr h), if_pos hover]

theorem stream_declared (h : 0 < limit) (hover : declaredOver int limit declared = true) :
    stream int limit body declared =
      (if (collect limit 0 body.ended body.chunks).2 then .tooLarge else .waiting,
        (collect limit 0 body.ended body.chunks).1.length) := by
  simp only [stream, readCapped, if_neg (Int.not_le.mpr h), if_pos hover]

/-- Both paths take the same chunks with the same result, but when a size over the limit is
declared: then the body must be empty. -/
theorem stream_eq_iff : stream int limit body declared = download int limit body declared ↔
    limit ≤ 0 ∨ declaredOver int limit declared = false ∨ body.chunks = [] ∧ body.ended = true := by
  by_cases h : limit ≤ 0
  · exact ⟨fun _ => .inl h, fun _ => stream_unlimited h⟩
  have hpos : 0 < limit := Int.not_le.mp h
  cases hover : declaredOver int limit declared with
  | false => exact ⟨fun _ => .inr (.inl rfl), fun _ => stream_undeclared hpos hover⟩
  | true =>
    rw [stream_declared hpos hover, download_declared hpos hover, Prod.mk.injEq, List.length_eq_zero_iff,
      collect_eq_nil]
    constructor
    · rintro ⟨hleft, hnil⟩
      refine .inr (.inr ⟨hnil, ?_⟩)
      rw [hnil, collect] at hleft
      cases hended : body.ended with
      | true => rfl
      | false => simp [hended] at hleft
    · rintro (hle | hfalse | ⟨hnil, hended⟩)
      · exact absurd hle h
      · cases hfalse
      · rw [hnil, hended]
        exact ⟨rfl, rfl⟩

/-- A size over the limit is declared, and `_stream` takes a chunk first. -/
theorem declared_taken :
    stream (fun text => if text = "11" then some 11 else none) 10 ⟨[[0]], true⟩ (some "11") = (.tooLarge, 1) ∧
    download (fun text => if text = "11" then some 11 else none) 10 ⟨[[0]], true⟩ (some "11") = (.tooLarge, 0) := by
  decide

end ReadCapped

end Netspy

import Hmp.Spec.Connect
import Hmp.Spec.NodeInit

/-! `hmp_transport_connect` leaves a valid endpoint as it is, and tells an invalid one only by the
port 0 or by a failing call. -/

namespace HMP

/-! ## Addresses as text -/

theorem octet_iff {cs : List Char} : octet cs = true ↔ ∃ n < 256, cs = Nat.toDigits 10 n := by
  simp only [octet, decide_eq_true_eq, List.all_eq_true]
  constructor
  · rintro ⟨hne, hd, h0, hlt⟩
    refine ⟨_, hlt, ?_⟩
    by_cases hz : cs.head? = some '0'
    · rw [h0 hz]
      rfl
    · rw [toDigits_ofDigitChars hne hd hz]
  · rintro ⟨n, hn, rfl⟩
    refine ⟨Nat.toDigits_ne_nil, fun c hc => Nat.isDigit_of_mem_toDigits (by decide) (by decide) hc,
      fun hz => ?_, by rwa [Nat.ofDigitChars_ten_toDigits]⟩
    rw [eq_zero_of_head?_toDigits hz]
    rfl

/-- `inet_pton` takes the texts of addresses, and no others. -/
theorem inetPton_eq_one_iff {s : String} : inetPton s = 1 ↔ DottedQuad s := by
  have hdot : ∀ n, '.' ∉ Nat.toDigits 10 n := fun n hm => by
    simpa using Nat.isDigit_of_mem_toDigits (by decide) (by decide) hm
  simp only [inetPton, ite_eq_left_iff, Int.zero_ne_one, imp_false, not_not]
  constructor
  · rintro ⟨hlen, hoct⟩
    choose! f hf using fun p hp => octet_iff.mp (hoct p hp)
    refine ⟨(s.toList.splitOn '.').map f, by simpa using hlen, fun o ho => ?_, ?_⟩
    · obtain ⟨p, hp, rfl⟩ := List.mem_map.mp ho
      exact (hf p hp).1
    · have hparts : ((s.toList.splitOn '.').map f).map (Nat.toDigits 10) = s.toList.splitOn '.' := by
        rw [List.map_map]
        exact (List.map_congr_left fun p hp => (hf p hp).2.symm).trans (List.map_id _)
      rw [hparts, List.intercalate_splitOn]
  · rintro ⟨quad, hlen, hlt, hs⟩
    have hne : quad.map (Nat.toDigits 10) ≠ [] := by
      rintro hnil
      simp [List.map_eq_nil_iff.mp hnil] at hlen
    have hsplit : s.toList.splitOn '.' = quad.map (Nat.toDigits 10) := by
      rw [hs]
      refine List.splitOn_intercalate _ (fun l hl => ?_) hne
      obtain ⟨n, -, rfl⟩ := List.mem_map.mp hl
      exact hdot n
    rw [hsplit]
    refine ⟨by simpa using hlen, fun p hp => ?_⟩
    obtain ⟨n, hn, rfl⟩ := List.mem_map.mp hp
    exact octet_iff.mpr ⟨n, hlt n hn, rfl⟩

instance (s : String) : Decidable (DottedQuad s) := decidable_of_iff _ inetPton_eq_one_iff

/-! ## The two outcomes -/

theorem inetPton_nonneg (s : String) : 0 ≤ inetPton s := by
  simp only [inetPton]
  split_ifs <;> decide

theorem connectEntry_of_ne {nd : Node} {t : ℕ} {url : String} {port : ℤ} (hport : port ≠ 0) :
    connectEntry nd t url port (inetPton url) =
      ((hmpPortUriInit nd t url port (inetPton url)).1, none) := by
  have hret : (hmpPortUriInit nd t url port (inetPton url)).2 = inetPton url := by
    unfold hmpPortUriInit
    split_ifs <;> rfl
  simp only [connectEntry, if_neg hport, hret, if_neg (Int.not_lt.mpr (inetPton_nonneg url))]

/-- The state is left alone. -/
theorem portUri_transState (nd : Node) (t : ℕ) (url : String) (port pton : ℤ) :
    ((hmpPortUriInit nd t url port pton).1.trans t).transState = (nd.trans t).transState := by
  unfold hmpPortUriInit
  split_ifs
  · rfl
  · simp

theorem portUri_peerAddr {nd : Node} {t : ℕ} {url : String} {port : ℤ} (h : ValidEndpoint url port) :
    ((hmpPortUriInit nd t url port (inetPton url)).1.trans t).peerAddr =
      { addr := url, port := port.toNat } := by
  obtain ⟨hquad, hlo, hhi⟩ := h
  rw [hmpPortUriInit, inetPton_eq_one_iff.mpr hquad, if_neg (by decide)]
  have hmod : port % 65536 = port := Int.emod_eq_of_lt (by omega) (by omega)
  simp [hmod]

/-- A call that fails leaves no id behind. -/
theorem connect_call_fails {p : Proc} {t : ℕ} {url : String} {port : ℤ} {o : ConnectCalls}
    (hport : port ≠ 0) (ho : o.pton = inetPton url) (hfail : o.createId ≠ 0 ∨ o.resolve ≠ 0) :
    (p.hmpTransportConnect t url port o).2 ≠ 0 ∧
      ((p.hmpTransportConnect t url port o).1.node.trans t).transState = (p.node.trans t).transState ∧
      ((p.hmpTransportConnect t url port o).1.node.trans t).cmId = none := by
  rw [Proc.hmpTransportConnect, ho, connectEntry_of_ne hport]
  by_cases hc : o.createId = 0
  · have hr : o.resolve ≠ 0 := hfail.resolve_left (not_not.mpr hc)
    simp [connectCreateId, hc, connectResolve, hr, portUri_transState]
  · simp [connectCreateId, hc, portUri_transState]

/-- Without a failing call it returns 0, whatever the endpoint is. -/
theorem connect_calls_ok {p : Proc} {t : ℕ} {url : String} {port : ℤ} {o : ConnectCalls}
    (hport : port ≠ 0) (ho : o.pton = inetPton url) (hc : o.createId = 0) (hr : o.resolve = 0) :
    (p.hmpTransportConnect t url port o).2 = 0 ∧
      connectTarget p.node t url port o =
        some ((hmpPortUriInit p.node t url port (inetPton url)).1.trans t).peerAddr := by
  refine ⟨?_, ?_⟩
  · rw [Proc.hmpTransportConnect, ho, connectEntry_of_ne hport]
    simp [connectCreateId, hc, connectResolve, hr]
  · rw [connectTarget, ho, connectEntry_of_ne hport]
    simp [connectCreateId, hc]

/-- `hmp_transport_connect` connects to the endpoint that it gets or fails cleanly exactly if the
port is 0 and no id is left from before, a call fails, or the endpoint is valid. -/
theorem connects_or_fails_iff (p : Proc) (t : ℕ) (url : String) (port : ℤ) (o : ConnectCalls) :
    ConnectsOrFails p t url port { o with pton := inetPton url }
        (p.hmpTransportConnect t url port { o with pton := inetPton url }) ↔
      if port = 0 then (p.node.trans t).cmId = none
      else o.createId ≠ 0 ∨ o.resolve ≠ 0 ∨ ValidEndpoint url port := by
  by_cases hport : port = 0
  · subst hport
    have hinvalid : ¬ ValidEndpoint url 0 := fun h => by
      have := h.2.1
      omega
    have hret : (p.hmpTransportConnect t url 0 { o with pton := inetPton url }).2 ≠ 0 := by
      simp [Proc.hmpTransportConnect, connectEntry]
    rw [if_pos rfl]
    constructor
    · intro h
      exact (h.fails (.inl hinvalid)).2.2
    · intro hcm
      exact ⟨fun h0 => absurd h0 hret, fun _ => ⟨hret, rfl, hcm⟩⟩
  · rw [if_neg hport]
    by_cases hcalls : o.createId ≠ 0 ∨ o.resolve ≠ 0
    · have hfail := connect_call_fails (p := p) (t := t) (o := { o with pton := inetPton url }) hport
        rfl hcalls
      apply iff_of_true ⟨fun h0 => absurd h0 hfail.1, fun _ => hfail⟩
      rw [← or_assoc]
      exact .inl hcalls
    · obtain ⟨hc, hr⟩ := not_or.mp hcalls
      have hok := connect_calls_ok (p := p) (t := t) (o := { o with pton := inetPton url }) hport
        rfl (not_not.mp hc) (not_not.mp hr)
      constructor
      · intro h
        exact .inr (.inr (h.connects hok.1).1)
      · rintro (hne | hne | hvalid)
        · exact absurd hne hc
        · exact absurd hne hr
        · refine ⟨fun _ => ⟨hvalid, ?_⟩, ?_⟩
          · rw [hok.2, portUri_peerAddr hvalid]
          · rintro (hinvalid | hne | hne)
            · exact absurd hvalid hinvalid
            · exact absurd hne hc
            · exact absurd hne hr

/-- The port 67881 of a configuration is narrowed to 2345, and the connection goes there. -/
theorem connects_elsewhere :
    connectTarget Init.start.proc.node 0 "192.168.31.183" 67881
        { cm := ⟨7, true⟩, pton := inetPton "192.168.31.183" } =
        some { addr := "192.168.31.183", port := 2345 } ∧
      ¬ ConnectsOrFails Init.start.proc 0 "192.168.31.183" 67881
          { cm := ⟨7, true⟩, pton := inetPton "192.168.31.183" }
          (Init.start.proc.hmpTransportConnect 0 "192.168.31.183" 67881
            { cm := ⟨7, true⟩, pton := inetPton "192.168.31.183" }) := by
  refine ⟨by decide, fun h => ?_⟩
  have := (h.connects (by decide)).1.2.2
  omega

end HMP

import WolfCose.Mac.Mac
import WolfCose.Recipient.Buckets
import WolfCose.Recipient.Mix

/-!
# The selected recipient of COSE_Mac

What `wc_CoseMac_Verify` accepts as the recipient that is selected.  It is skipped as well, with the same
algorithm.
-/

namespace WolfCose

open Program Cbor Settings

section

variable [Settings]

/-- The third field of the selected recipient: an empty byte string for a direct recipient, otherwise null or a
byte string. -/
def MacField (alg : Int) (bs : Bytes) (value : Option Bytes) : Prop :=
  (bs = [cborNull] ∧ alg ≠ algDirect ∧ value = none)
    ∨ ∃ data, BstrValue 0 bs data ∧ (alg = algDirect → data = []) ∧ value = some data

/-- The recipient that is selected, its algorithm and its third field. -/
def MacSelectedValue (bs : Bytes) (alg : Int) (value : Option Bytes) : Prop :=
  ∃ head headers field recip, bs = Token.bytes head ++ (headers ++ field) ∧ Accepted 0 head ∧ head.major = .array
    ∧ head.val = 3 ∧ HeadersValue 0 headers recip ∧ alg = recip.hdr.alg
    ∧ (alg = algDirect → recip.protectedData = []) ∧ MacField alg field value

theorem reads_decodeRecipientValue (alg : Int) :
  Reads (decodeRecipientValue alg) (MacField alg)
  := by
  intro ctx value ctx'
  simp only [decodeRecipientValue, runs_bind, runs_get, runs_failIf, runs_ite, runs_pure, runs_decodeHead_field]
  constructor
  · rintro ⟨_, _, ⟨rfl, rfl⟩, item, c₁, ⟨hnull, hc, rfl⟩ | ⟨hnull, t, ht, hc, rfl⟩, _, _, ⟨hbad, rfl⟩,
      ⟨⟨halg, hnull'⟩, rfl, rfl⟩ | ⟨hnot, _, _, ⟨hm, rfl⟩, rfl, rfl⟩⟩
    · exact ⟨_, .inl ⟨rfl, halg, rfl⟩, hc⟩
    · exact (hm (by rintro ⟨⟩)).elim
    · exact absurd hnull' hnull
    · have hmajor : t.major = .bstr := Decidable.not_not.mp hm
      refine ⟨_, .inr ⟨t.data, ⟨t, ht, ⟨hmajor, rfl⟩, rfl⟩, fun hdir => ?_, rfl⟩, hc⟩
      by_contra hne
      exact hbad ⟨hdir, .inr fun h => hne (List.length_eq_zero_iff.mp h)⟩
  · rintro ⟨bs, ⟨rfl, halg, rfl⟩ | ⟨data, hbs, hdir, rfl⟩, hc⟩
    · have hnull : ctx.rest.head? = some cborNull := by
        rw [hc.rest_eq]
        rfl
      exact ⟨ctx, ctx, ⟨rfl, rfl⟩, _, ctx', .inl ⟨hnull, hc, rfl⟩, (), ctx', ⟨fun h => halg h.1, rfl⟩,
        .inl ⟨⟨halg, hnull⟩, rfl, rfl⟩⟩
    · have hnull : ctx.rest.head? ≠ some cborNull := by
        rw [hc.rest_eq]
        exact hbs.head?_ne_null
      obtain ⟨t, ht, ⟨hm, rfl⟩, rfl⟩ := hbs
      refine ⟨ctx, ctx, ⟨rfl, rfl⟩, _, ctx', .inr ⟨hnull, t, ht, hc, rfl⟩, (), ctx', ⟨?_, rfl⟩,
        .inr ⟨fun h => hnull h.2, (), ctx', ⟨fun h => h hm, rfl⟩, rfl, rfl⟩⟩
      rintro ⟨hd, hne | hne⟩
      · exact hne hm
      · apply hne
        change t.data.length = 0
        rw [hdir hd]
        rfl

theorem MacField.ne_nil {alg : Int} {bs : Bytes} {value : Option Bytes} (h : MacField alg bs value) :
  bs ≠ []
  := by
  rcases h with ⟨rfl, -⟩ | ⟨_, h, -⟩
  · exact List.cons_ne_nil _ _
  · exact TokenValue.ne_nil h

/-- The selected recipient is decoded exactly if it stands at the cursor and its algorithm goes with those
before it. -/
theorem runs_decodeSelectedRecipient (mode : Option RecipientMode) (ctx : DecCtx)
    (r : Int × Option Bytes × Option RecipientMode) (ctx' : DecCtx) :
  Runs (decodeSelectedRecipient mode) ctx r ctx'
    ↔ ∃ bs, MacSelectedValue bs r.1 r.2.1 ∧ ctx.Consumes bs ctx' ∧ updateRecipientMode r.1 mode = .ok r.2.2
  := by
  simp only [decodeSelectedRecipient, decodeArrayStart, runs_bind, runs_failIf, runs_pure, runs_ofExcept,
    runs_decodeArrayStartEx, reads_decodeHeaders decodeFlagsValid_zero _ _ _, reads_decodeRecipientValue _ _ _ _]
  constructor
  · rintro ⟨n, c₁, ⟨-, head, hhead, hc₁, hm, hv, -⟩, _, _, ⟨hn, rfl⟩, recip, c₂, ⟨headers, hheaders, hc₂⟩, mode', _,
      ⟨hmode, rfl⟩, _, _, ⟨hdirect, rfl⟩, value, c₃, ⟨field, hfield, hc₃⟩, rfl, rfl⟩
    refine ⟨_, ⟨head, headers, field, recip, rfl, hhead, hm, hv.trans (Decidable.not_not.mp hn), hheaders, rfl, ?_,
      hfield⟩, hc₁.trans (hc₂.trans hc₃), hmode⟩
    intro hd
    by_contra hne
    exact hdirect ⟨hd, fun h => hne (List.length_eq_zero_iff.mp h)⟩
  · rintro ⟨_, ⟨head, headers, field, recip, rfl, hhead, hm, hv, hheaders, halg, hdirect, hfield⟩, hc, hmode⟩
    obtain ⟨alg, value, mode'⟩ := r
    obtain rfl : alg = recip.hdr.alg := halg
    obtain ⟨c₁, hc₁, hc⟩ := hc.split
    obtain ⟨c₂, hc₂, hc₃⟩ := hc.split
    have hroom : 3 ≤ c₁.rest.length := by
      have h₁ := hheaders.two_le_length
      have h₂ := List.length_pos_iff.mpr hfield.ne_nil
      rw [hc₂.length_rest_eq, hc₃.length_rest_eq]
      omega
    refine ⟨3, c₁, ⟨decodeFlagsValid_zero, head, hhead, hc₁, hm, hv, ?_⟩, (), c₁, ⟨fun h => h rfl, rfl⟩, recip, c₂,
      ⟨headers, hheaders, hc₂⟩, mode', c₂, ⟨hmode, rfl⟩, (), c₂, ⟨?_, rfl⟩, value, ctx', ⟨field, hfield, hc₃⟩, rfl, rfl⟩
    · rw [Token.children, hm, hv]
      exact hroom
    · rintro ⟨hd, hne⟩
      apply hne
      rw [hdirect hd]
      rfl

/-! ### Skipping it -/

theorem MacField.skippedField {alg : Int} {bs : Bytes} {value : Option Bytes} (h : MacField alg bs value) :
  SkippedField alg bs
  := by
  unfold SkippedField
  rcases h with ⟨rfl, hne, -⟩ | ⟨data, hbs, hdir, -⟩
  · rw [if_neg hne]
    exact .inl rfl
  · split
    next hd =>
      rw [hdir hd] at hbs
      exact hbs
    next => exact .inr ⟨data, hbs⟩

/-- A recipient that is accepted when it is selected is skipped, with the same algorithm. -/
theorem MacSelectedValue.skipped {bs : Bytes} {alg : Int} {value : Option Bytes} (hlen : bs.length ≤ sizeMax)
    (h : MacSelectedValue bs alg value) (halg : alg ≠ algUnset) (d : Nat) :
  RecipientTree d alg bs
  := by
  obtain ⟨head, headers, field, recip, rfl, hhead, hm, hv, hheaders, rfl, hdirect, hfield⟩ := h
  obtain ⟨prot, unprot, pes, ues, rfl, hb⟩ := hheaders.buckets (by
    rw [List.length_append, List.length_append] at hlen
    omega)
  rw [List.append_assoc, recipientTree_three hhead hm hv hb.protectedBytes hb.entries.items.dataItem]
  apply exists_skippedFields hb.protectedBytes hb.bucket hb.entries hb.nodup hb.protectedSkippable hb.skippable _
    hdirect hfield.skippedField
  intro vars hreport
  rcases hreport.reported_cases hb.alg with h | ⟨h, -⟩
  · exact h
  · exact absurd h halg

/-! ### The message -/

theorem MacSelectedValue.ne_nil {bs : Bytes} {alg : Int} {value : Option Bytes} (h : MacSelectedValue bs alg value) :
  bs ≠ []
  := by
  obtain ⟨head, _, _, _, rfl, -⟩ := h
  exact List.append_ne_nil_of_left_ne_nil (List.ne_nil_of_length_pos head.one_le_length_bytes) _

/-- The recipients are decoded exactly if their array stands at the cursor, with the selected one as its parser
accepts it and the others as they are skipped. -/
theorem runs_decodeRecipients (index : Nat) (ctx : DecCtx) (r : Int × Option Bytes) (ctx' : DecCtx) :
  Runs (decodeRecipients index) ctx r ctx'
    ↔ ∃ head before bs after, RecipientList head before after r.1 index ∧ MacSelectedValue bs r.1 r.2
      ∧ ctx.Consumes (head.bytes ++ (treesBytes before ++ (bs ++ treesBytes after))) ctx'
  := by
  rw [← recipientList_iff (S := fun _ bs => MacSelectedValue bs r.1 r.2) fun _ _ h => h.ne_nil]
  simp only [decodeRecipients, runs_bind, runs_failIf, runs_pure, runs_decodeSelectedRecipient]
  constructor
  · rintro ⟨count, c₁, hcount, _, _, ⟨hindex, rfl⟩, mode, c₂, hbefore, ⟨alg, value, mode'⟩, c₃, ⟨bs, hbs, hc, hmode⟩,
      mode'', _, hafter, rfl, rfl⟩
    exact ⟨count, c₁, hcount, Nat.lt_of_not_le hindex, mode, c₂, hbefore, bs, c₃, hbs, hc, mode', hmode, mode'', hafter⟩
  · rintro ⟨count, c₁, hcount, hindex, mode, c₂, hbefore, bs, c₃, hbs, hc, mode', hmode, mode'', hafter⟩
    exact ⟨count, c₁, hcount, (), c₁, ⟨Nat.not_le_of_lt hindex, rfl⟩, mode, c₂, hbefore, (r.1, r.2, mode'), c₃,
      ⟨bs, hbs, hc, hmode⟩, mode'', ctx', hafter, rfl, rfl⟩

/-- The parts of a message that is decoded with the recipient at an index selected. -/
structure MacParts (index : Nat) (detached : Pointer) (input : Bytes) (msg : MacMessage)
    (start headers payload tag : Bytes) (head : Token) (before after : List (Int × Bytes)) (selected : Bytes) :
    Prop where
  input_eq : input = start ++ (headers ++ (payload ++ (tag ++
    (head.bytes ++ (treesBytes before ++ (selected ++ treesBytes after))))))
  startValue : StartValue 0 tagMac 5 start
  headersValue : HeadersValue 0 headers msg.headers
  payloadValue : PayloadValue 0 detached msg.headers.hdr payload (msg.hdr, msg.payload)
  tagValue : BstrValue 0 tag msg.tag
  recipients : RecipientList head before after msg.recipientAlg index
  selectedValue : MacSelectedValue selected msg.recipientAlg msg.recipientValue

theorem decodeMac_eq_ok {index : Nat} {detached : Pointer} {input : Buffer} {msg : MacMessage} :
  decodeBuffer (decodeMac detached index) input = .ok msg
    ↔ ∃ start headers payload tag head before after selected, MacParts index detached input.bytes msg start headers
      payload tag head before after selected
  := by
  have hf := decodeFlagsValid_zero
  simp only [decodeBuffer_eq_ok, decodeMac, decodeBstr, runs_bind, runs_pure, runs_decodeStart hf,
    reads_decodeHeaders hf _ _ _, reads_decodeMacPayload _ _ _ _ _, reads_decodeBstrEx hf _ _ _,
    runs_decodeRecipients, runs_decodeEnd]
  constructor
  · rintro ⟨_, _, c₁, ⟨start, hstart, h₁, -⟩, headers, c₂, ⟨bs₂, hheaders, h₂⟩, ⟨hdr, payload⟩, c₃,
      ⟨bs₃, hpayload, h₃⟩, tag, c₄, ⟨bs₄, htag, h₄⟩, r, c₅, ⟨head, before, bs, after, hlist, hsel, h₅⟩, _, _,
      ⟨hend, rfl⟩, rfl, rfl⟩
    exact ⟨start, bs₂, bs₃, bs₄, head, before, after, bs, {
      input_eq := (h₁.trans (h₂.trans (h₃.trans (h₄.trans h₅)))).init_end hend
      startValue := hstart
      headersValue := hheaders
      payloadValue := hpayload
      tagValue := htag
      recipients := hlist
      selectedValue := hsel }⟩
  · rintro ⟨start, bs₂, bs₃, bs₄, head, before, after, bs, h⟩
    obtain ⟨last, hc, hend⟩ := DecCtx.consumes_whole input
    rw [h.input_eq] at hc
    obtain ⟨c₁, h₁, hc⟩ := hc.split
    have hroom : 5 ≤ c₁.rest.length := by
      have k₁ := h.headersValue.two_le_length
      have k₂ := List.length_pos_iff.mpr h.payloadValue.ne_nil
      have k₃ := List.length_pos_iff.mpr h.tagValue.ne_nil
      have k₄ := head.one_le_length_bytes
      rw [hc.length_rest_eq]
      simp only [List.length_append]
      omega
    obtain ⟨c₂, h₂, hc⟩ := hc.split
    obtain ⟨c₃, h₃, hc⟩ := hc.split
    obtain ⟨c₄, h₄, h₅⟩ := hc.split
    obtain ⟨headers, hdr, payload, tag, alg, value⟩ := msg
    exact ⟨last, (), c₁, ⟨start, h.startValue, h₁, hroom⟩, headers, c₂, ⟨bs₂, h.headersValue, h₂⟩, (hdr, payload), c₃,
      ⟨bs₃, h.payloadValue, h₃⟩, tag, c₄, ⟨bs₄, h.tagValue, h₄⟩, (alg, value), last,
      ⟨head, before, bs, after, h.recipients, h.selectedValue, h₅⟩, (), last, ⟨hend, rfl⟩, rfl, rfl⟩

variable [MacSettings] [WolfCrypt] [MacCrypt]

/-- A call of `wc_CoseMac_Verify` that succeeds has decoded the message, and its recipient is a direct one. -/
theorem macVerify_decoded {args : MacVerifyArgs} {out out' : VerifyOut} (h : macVerify args out = (.ok (), out')) :
  ∃ recipient input msg, args.recipient = some recipient ∧ args.input = some input
    ∧ decodeBuffer (decodeMac args.detached args.recipientIndex) input = .ok msg ∧ msg.recipientAlg = algDirect
  := by
  obtain ⟨hdr, payload, hret, -⟩ := VerifyOut.finish_ok h
  split at hret
  · simp only [macVerifyMessage, bind_eq_ok, failWhen_eq_ok] at hret
    obtain ⟨_, -, _, -, msg, hdec, _, -, _, -, _, -, _, hdirect, -⟩ := hret
    exact ⟨_, _, msg, by assumption, by assumption, hdec, Decidable.not_not.mp hdirect⟩
  · cases hret

end

end WolfCose

import UserDirectory.Answers
import UserDirectory.Downloads

/-!
# Responses cut short

What `req_get` and `req_all` make of a stream that ends before the response
does. `send_cmd` only looks at whether it receives a single byte of each part of
the response, and fills up the rest with zeros; `send_result_to_file` then looks
at the size of the buffer.

* `IsDownload.honest_iff`: a file is only saved with data that was sent whole,
  and `OK__` only printed for a response that was not cut short, if the response
  is whole or is cut short at one of the few places that `send_cmd` finds.
-/

namespace UserDirectory

open Fuel Socket CInt Stdio Client

/-- The stream ends before a response with data does. -/
def CutOff (stream : Bytes) : Prop :=
  ∃ data : Bytes, data.length < 2 ^ 32 ∧ stream <+: okResponse data ∧ stream ≠ okResponse data

/-- A client only saves data that was sent whole; from a response that was cut short, it
    neither saves a file nor prints `OK__`. -/
structure Genuine (stream : Bytes) (t t' : Terminal) : Prop where
  saved : ∀ name data, t'.files name = some data →
    t.files name = some data ∨ okResponse data <+: stream
  cutOff : CutOff stream → t'.files = t.files ∧ ∃ text, t'.cout = t.cout ++ text ∧ ¬resOk <:+: text

/-- The download is genuine if it returns, whatever files there are before. -/
def Honest (run : ℕ → Terminal → Option Terminal) (t : Terminal) : Prop :=
  ∀ files t', Returns (fun n => run n { t with files := files }) t' →
    Genuine (delivered t.conn.recvs) { t with files := files } t'

/-- The requests for data, each with its packet. -/
inductive IsDownload (faults : WriteFaults) (user pass : Bytes) :
    Bytes → (ℕ → Terminal → Option Terminal) → Prop
  | reqGet (getname : Bytes) :
    IsDownload faults user pass (packet UserDirectory.reqGet user pass (getMsg getname))
      fun n => Client.reqGet n faults user pass getname
  | reqAll (allfile : Bytes) :
    IsDownload faults user pass (packet UserDirectory.reqAll user pass [])
      fun n => Client.reqAll n faults user pass allfile

variable {faults : WriteFaults} {filename stream : Bytes} {t t' : Terminal}

/-! ## Streams -/

theorem isPrefix_zeroFill {n : ℕ} (h : stream.length ≤ n) : stream <+: zeroFill n stream := by
  rw [zeroFill, List.take_of_length_le h]
  exact List.prefix_append _ _

/-- A stream that ends too early may have been meant to be filled up with zeros. -/
theorem cutOff_of_not_whole (hok : resOk <+: stream) (hcut : ¬Whole stream) : CutOff stream := by
  have hshort : stream.length < 8 + announced stream := Nat.lt_of_not_le fun h => hcut ⟨hok, h⟩
  refine ⟨zeroFill (announced stream) (stream.drop 8), ?_, ?_, fun h => ?_⟩
  · rw [length_zeroFill]
    exact announced_lt stream
  · obtain ⟨rest, rfl⟩ := hok
    have hdrop : (resOk ++ rest).drop 8 = rest.drop 4 := rfl
    rw [List.length_append, length_resOk] at hshort
    rw [okResponse, length_zeroFill, word_announced, List.drop_left' length_resOk, hdrop,
      List.append_assoc]
    refine (List.prefix_append_right_inj resOk).2 ?_
    by_cases h4 : rest.length ≤ 4
    · exact (isPrefix_zeroFill h4).trans (List.prefix_append _ _)
    · -- The length has arrived, but not all of the data.
      have hpre : rest.drop 4 <+: zeroFill (announced (resOk ++ rest)) (rest.drop 4) :=
        isPrefix_zeroFill (by rw [List.length_drop]; omega)
      have hfour : zeroFill 4 rest = rest.take 4 := by
        rw [zeroFill, Nat.sub_eq_zero_of_le (by omega), List.replicate_zero, List.append_nil]
      have h := (List.prefix_append_right_inj (rest.take 4)).2 hpre
      rwa [List.take_append_drop, ← hfour] at h
  · have hlen := congrArg List.length h
    rw [length_okResponse, length_zeroFill] at hlen
    exact absurd hlen (Nat.ne_of_lt hshort)

theorem not_cutOff_of_whole (hwhole : Whole stream) : ¬CutOff stream := by
  rintro ⟨data, hlen, hpre, hne⟩
  have hpayload : (payload stream).length < 2 ^ 32 :=
    lt_of_le_of_lt (List.length_take_le _ _) (announced_lt stream)
  have hstart := (okResponse_isPrefix_iff hpayload).2 ⟨hwhole, rfl⟩
  -- The response at the start of the stream can only be the one cut short.
  have heq := ((okResponse_isPrefix_iff hpayload).1 (hstart.trans hpre)).2
  rw [((okResponse_isPrefix_iff hlen).1 (List.prefix_refl _)).2] at heq
  subst heq
  exact hne (hpre.eq_of_length_le hstart.length_le)

/-- `send_cmd` finds that a response was cut short if not a byte of its data arrives. -/
theorem taken_eq_nil_iff :
    taken stream = [] ↔ 4 < stream.length ∧ stream.length ≤ 8 ∧ announced stream ≠ 0 := by
  have hok : ∀ rest, resOk ++ rest ≠ [] := fun rest h =>
    absurd (List.append_eq_nil_iff.1 h).1 (by decide)
  rw [taken]
  split
  · next h4 => exact iff_of_false (hok []) fun h => absurd h.1 (Nat.not_lt.2 h4)
  · next h4 =>
    split
    · next h => exact iff_of_true rfl ⟨Nat.lt_of_not_le h4, h.2, h.1⟩
    · next h =>
      rw [okResponse, List.append_assoc]
      exact iff_of_false (hok _) fun h' => h ⟨h'.2.2, h'.2.1⟩

theorem taken_cases (stream : Bytes) : taken stream = [] ∨ resOk <+: taken stream := by
  rw [taken]
  split
  · exact .inr (List.prefix_refl _)
  split
  · exact .inl rfl
  · rw [okResponse, List.append_assoc]
    exact .inr (List.prefix_append _ _)

/-- A response that is not a success is an error, or none at all. -/
theorem getResponse_not_ok {c : Conn} (hc : c.RecvRecoverable)
    (hok : ¬resOk <+: delivered c.recvs) :
    (Diverges fun n => getResponse n c) ∨ ∃ response c',
      Returns (fun n => getResponse n c) (response, c') ∧
        (response = [] ∨ ascii "ERR_" <+: delivered c.recvs ∧ ascii "ERR_" <+: response) := by
  by_cases herr : ascii "ERR_" <+: delivered c.recvs
  · -- The rest of the error is added to it, unless the client waits for ever.
    obtain ⟨c₁, -, hrec₁, -, -, hiff, hdiv⟩ := getResponse_code hc rfl herr
    simp only [getRest_err] at hiff hdiv
    by_cases hend : 12 ≤ (delivered c₁.recvs).length ∨ ¬c₁.Interrupted
    · obtain ⟨c', hr⟩ := getError_returns hrec₁ hend (ascii "ERR_")
      exact .inr ⟨_, c', (hiff _).2 hr, .inr ⟨herr, List.prefix_append _ _⟩⟩
    · rw [not_or, not_not, Nat.not_le] at hend
      exact .inl (hdiv (getError_diverges hrec₁ hend.1 hend.2 _))
  by_cases hend : 4 ≤ (delivered c.recvs).length ∨ ¬c.Interrupted
  · obtain ⟨c₁, hr₁, -⟩ := get_zeros_returns hc (n := 4) (by decide) hend
    refine .inr ⟨[], c₁, hr₁.bindM ?_, .inl rfl⟩
    by_cases hnil : delivered c.recvs = []
    · -- Not a byte.
      simp only [hnil, List.take_nil]
      exact returns_of_forall fun _ => rfl
    · -- Neither a success nor an error.
      have hgot : ¬(((List.take 4 (delivered c.recvs)).length : ℤ) = 0) := by
        simp only [length_take_eq_zero_iff, hnil, OfNat.ofNat_ne_zero, or_self, not_false_eq_true]
      have hcode₁ : zeroFill 4 (delivered c.recvs) ≠ ascii "ERR_" := fun h =>
        herr (isPrefix_of_zeroFill (ascii "ERR_") h (by decide))
      have hcode₂ : zeroFill 4 (delivered c.recvs) ≠ resOk := fun h =>
        hok (isPrefix_of_zeroFill resOk h (by decide))
      simp only [if_neg hgot, if_neg hcode₁, if_neg hcode₂]
      exact returns_of_forall fun _ => rfl
  · rw [not_or, not_not, Nat.not_le] at hend
    exact .inl ((reliableGetToEofOrN_diverges hc _ (by decide) hend.1 hend.2).bindM _)

/-! ## What is saved and printed -/

theorem Genuine.of_eq (hfiles : t'.files = t.files) (text : Bytes)
    (hcout : t'.cout = t.cout ++ text) (htext : CutOff stream → ¬resOk <:+: text) :
    Genuine stream t t' where
  saved _ _ h := .inl (hfiles ▸ h)
  cutOff hcut := ⟨hfiles, text, hcout, htext hcut⟩

section Download

variable {cmd user pass msg response : Bytes} {c : Conn}

theorem honest_of_diverges (h : Diverges fun n => sendCmd n cmd user pass msg t.conn) :
    Honest (fun n => download n faults cmd user pass msg filename) t := by
  intro files t' hr
  have hdiv : Diverges fun n =>
      download n faults cmd user pass msg filename { t with files := files } := fun n => by
    show (sendCmd n cmd user pass msg t.conn).map _ = none
    rw [show sendCmd n cmd user pass msg t.conn = none from h n, Option.map_none]
  exact absurd hdiv hr.not_diverges

/-- A download that returns is honest if it makes of the response what it should. -/
theorem honest_iff_of_returns
    (h : Returns (fun n => sendCmd n cmd user pass msg t.conn) (response, c)) :
    Honest (fun n => download n faults cmd user pass msg filename) t ↔ ∀ files,
      Genuine (delivered t.conn.recvs) { t with files := files }
        (conclude faults response filename { t with files := files, conn := c }) := by
  have hr : ∀ files, Returns (fun n => download n faults cmd user pass msg filename
      { t with files := files }) (conclude faults response filename
        { t with files := files, conn := c }) := fun files =>
    download_returns (t := { t with files := files }) h
  constructor
  · exact fun hhonest files => hhonest files _ (hr files)
  · intro hgenuine files t' ht'
    rw [ht'.unique (hr files)]
    exact hgenuine files

/-- Nothing is made of no response. -/
theorem honest_of_nil (h : Returns (fun n => sendCmd n cmd user pass msg t.conn) ([], c)) :
    Honest (fun n => download n faults cmd user pass msg filename) t :=
  (honest_iff_of_returns h).2 fun _ => .of_eq rfl [] (List.append_nil _).symm fun _ => by decide

/-- An error is printed. -/
theorem honest_of_error (h : Returns (fun n => sendCmd n cmd user pass msg t.conn) (response, c))
    (herr : ascii "ERR_" <+: response) (hstream : ascii "ERR_" <+: delivered t.conn.recvs) :
    Honest (fun n => download n faults cmd user pass msg filename) t := by
  refine (honest_iff_of_returns h).2 fun files => ?_
  obtain ⟨rest, rfl⟩ := herr
  refine .of_eq rfl (ascii "ERR_" ++ rest ++ newline) rfl ?_
  rintro ⟨data, -, hpre, -⟩
  rw [okResponse, List.append_assoc] at hpre
  exact absurd hstream (not_err_isPrefix_of_ok hpre)

/-- The data of a whole response is saved, as far as it is written. -/
theorem honest_iff_of_whole (hwhole : Whole (delivered t.conn.recvs))
    (h : Returns (fun n => sendCmd n cmd user pass msg t.conn)
      (okResponse (payload (delivered t.conn.recvs)), c)) :
    Honest (fun n => download n faults cmd user pass msg filename) t ↔
      faults.fopen = true ∨ faults.Complete [payload (delivered t.conn.recvs)] := by
  have hlen : (payload (delivered t.conn.recvs)).length < 2 ^ 32 :=
    lt_of_le_of_lt (List.length_take_le _ _) (announced_lt _)
  have hpre := (okResponse_isPrefix_iff hlen).2 ⟨hwhole, rfl⟩
  rw [honest_iff_of_returns h, ← written_eq_iff]
  constructor
  · intro hgenuine
    by_contra hnot
    rw [not_or, Bool.not_eq_true] at hnot
    -- What is written into an empty directory is not what was sent.
    have hsaved := (hgenuine fun _ => none).saved (cStr filename)
      (written faults (payload (delivered t.conn.recvs)))
    rw [conclude_okResponse_files hlen, downloaded, hnot.1] at hsaved
    rcases hsaved (Function.update_self _ _ _) with hnone | hstart
    · cases hnone
    · refine hnot.2 ((okResponse_isPrefix_iff ?_).1 hstart).2.symm
      exact lt_of_le_of_lt (length_written_le _ _) hlen
  · refine fun hwritten files => ⟨fun name data hdata => ?_, fun hcut => ?_⟩
    · rw [conclude_okResponse_files hlen, downloaded] at hdata
      split at hdata
      · exact .inl hdata
      · next hopen =>
        rw [hwritten.resolve_left hopen] at hdata
        by_cases hname : name = cStr filename
        · rw [hname, Function.update_self, Option.some.injEq] at hdata
          exact .inr (hdata ▸ hpre)
        · rw [Function.update_of_ne hname] at hdata
          exact .inl hdata
    · exact absurd hcut (not_cutOff_of_whole hwhole)

/-- A response that was cut short is honest if `send_cmd` finds out. -/
theorem honest_iff_of_cutOff (hcut : CutOff (delivered t.conn.recvs))
    (h : Returns (fun n => sendCmd n cmd user pass msg t.conn) (response, c))
    (hresponse : response = [] ∨ resOk <+: response) :
    Honest (fun n => download n faults cmd user pass msg filename) t ↔ response = [] := by
  constructor
  · intro hhonest
    refine hresponse.resolve_right fun hok => ?_
    obtain ⟨-, text, htext⟩ := @conclude_ok faults filename { t with conn := c } response hok
    obtain ⟨-, text', htext', hno⟩ := ((honest_iff_of_returns h).1 hhonest t.files).cutOff hcut
    refine hno ⟨text, newline, (List.append_right_inj t.cout).1 ?_⟩
    rw [← htext', List.append_assoc]
    exact htext.symm
  · rintro rfl
    exact honest_of_nil h

/-- When a download is honest, once the request has been sent or not. -/
theorem download_honest_iff (hrecv : t.conn.RecvRecoverable) {b : Bool}
    (hsend : Returns (fun n => reliableSend n (packet cmd user pass msg)
      (int32 (packet cmd user pass msg).length) t.conn) (b, c)) :
    Honest (fun n => download n faults cmd user pass msg filename) t ↔
      b = false ∨ ¬resOk <+: delivered t.conn.recvs ∨
      Whole (delivered t.conn.recvs) ∧
        (faults.fopen = true ∨ faults.Complete [payload (delivered t.conn.recvs)]) ∨
      ¬Whole (delivered t.conn.recvs) ∧ (c.Interrupted ∨ 4 < (delivered t.conn.recvs).length ∧
        (delivered t.conn.recvs).length ≤ 8 ∧ announced (delivered t.conn.recvs) ≠ 0) := by
  obtain ⟨hfuel, hrecvs⟩ := reliableSend_eq hsend
  have hrec : c.RecvRecoverable := fun e he => hrecv e (hrecvs ▸ he)
  cases b with
  | false =>
    -- The request was not sent, and there is no response.
    have hcmd : Returns (fun n => sendCmd n cmd user pass msg t.conn) ([], c) :=
      hsend.bindM (returns_of_forall fun _ => rfl)
    exact iff_of_true (honest_of_nil hcmd) (.inl rfl)
  | true =>
    have hdiv : (Diverges fun n => getResponse n c) →
        Diverges fun n => sendCmd n cmd user pass msg t.conn := by
      intro h
      refine Diverges.bindM_right hfuel ?_
      exact h
    rw [← hrecvs]
    by_cases hok : resOk <+: delivered c.recvs
    · simp only [Bool.true_eq_false, hok, not_true_eq_false, false_or]
      by_cases hwhole : Whole (delivered c.recvs)
      · obtain ⟨c', hr, -⟩ := getResponse_ok_returns hrec hok (.inl hwhole)
        rw [taken_of_whole hwhole] at hr
        simp only [hwhole, not_true_eq_false, true_and, false_and, or_false]
        rw [hrecvs] at hwhole hr ⊢
        exact honest_iff_of_whole hwhole (sendCmd_returns hsend hr)
      · simp only [hwhole, not_false_eq_true, true_and, false_and, false_or]
        by_cases hint : c.Interrupted
        · have hwait := getResponse_ok_diverges hrec hok hwhole hint
          exact iff_of_true (honest_of_diverges (hdiv hwait)) (.inl hint)
        · obtain ⟨c', hr, -⟩ := getResponse_ok_returns hrec hok (.inr hint)
          have hcut := cutOff_of_not_whole hok hwhole
          rw [or_iff_right hint, ← taken_eq_nil_iff]
          exact honest_iff_of_cutOff (hrecvs ▸ hcut) (sendCmd_returns hsend hr) (taken_cases _)
    · refine iff_of_true ?_ (.inr (.inl hok))
      rcases getResponse_not_ok hrec hok with h | ⟨response, c', hr, rfl | ⟨hstream, herr⟩⟩
      · exact honest_of_diverges (hdiv h)
      · exact honest_of_nil (sendCmd_returns hsend hr)
      · exact honest_of_error (sendCmd_returns hsend hr) herr (hrecvs ▸ hstream)

end Download

/-- A download is honest exactly if the request is not sent; or the stream does not start with
    `OK__`; or the response is whole, and the file is written in full or not at all; or the
    response is cut short, and the client waits for ever or receives some of a length other
    than `0`, but none of the data. -/
theorem IsDownload.honest_iff {user pass bytes : Bytes} {run : ℕ → Terminal → Option Terminal}
    (h : IsDownload faults user pass bytes run) (hrecv : t.conn.RecvRecoverable) {b : Bool}
    {c : Conn}
    (hsend : Returns (fun n => reliableSend n bytes (int32 bytes.length) t.conn) (b, c)) :
    Honest run t ↔
      b = false ∨ ¬resOk <+: delivered t.conn.recvs ∨
      Whole (delivered t.conn.recvs) ∧
        (faults.fopen = true ∨ faults.Complete [payload (delivered t.conn.recvs)]) ∨
      ¬Whole (delivered t.conn.recvs) ∧ (c.Interrupted ∨ 4 < (delivered t.conn.recvs).length ∧
        (delivered t.conn.recvs).length ≤ 8 ∧ announced (delivered t.conn.recvs) ≠ 0) := by
  cases h with
  | reqGet getname => exact download_honest_iff hrecv hsend
  | reqAll allfile => exact download_honest_iff hrecv hsend

/-- A client that receives the bytes, in an empty directory. -/
def receiving (bytes : Bytes) : Terminal := ⟨.delivering bytes, fun _ => none, [], []⟩

/-- A whole list of users. -/
theorem reqAll_honest :
    Honest (fun n => Client.reqAll n .none (ascii "alice") (ascii "pw") (ascii "all"))
      (receiving (okResponse (ascii "alice\n"))) := by
  obtain ⟨b, c, hsend, -⟩ := reliableSend_returns
    (receiving (okResponse (ascii "alice\n"))).conn (packet reqAll (ascii "alice") (ascii "pw") [])
  have hwhole : Whole (delivered (receiving (okResponse (ascii "alice\n"))).conn.recvs) := by
    decide +kernel
  exact ((IsDownload.reqAll (ascii "all")).honest_iff (Conn.recvRecoverable_delivering _) hsend).2
    (.inr (.inr (.inl ⟨hwhole, .inr (WriteFaults.none_complete _)⟩)))

/-- Of five bytes announced, two arrive: the file is filled up with zeros, and `OK__` printed. -/
theorem reqAll_not_honest :
    CutOff (resOk ++ word 5 ++ ascii "ab") ∧
    (∃ t', Returns (fun n => Client.reqAll n .none (ascii "alice") (ascii "pw") (ascii "all")
        (receiving (resOk ++ word 5 ++ ascii "ab"))) t' ∧
      t'.files (ascii "all") = some (ascii "ab" ++ [0, 0, 0]) ∧ t'.cout = resOk ++ newline) ∧
    ¬Honest (fun n => Client.reqAll n .none (ascii "alice") (ascii "pw") (ascii "all"))
      (receiving (resOk ++ word 5 ++ ascii "ab")) := by
  have hok : resOk <+: resOk ++ word 5 ++ ascii "ab" := by decide +kernel
  have hcut := cutOff_of_not_whole hok (by decide +kernel)
  have hdel := delivered_delivering (resOk ++ word 5 ++ ascii "ab")
  -- The packet is sent, without an interruption.
  have hsend : Returns (fun n => reliableSend n (packet reqAll (ascii "alice") (ascii "pw") [])
      (int32 (packet reqAll (ascii "alice") (ascii "pw") []).length)
      (receiving (resOk ++ word 5 ++ ascii "ab")).conn)
      (true, ⟨(Conn.delivering (resOk ++ word 5 ++ ascii "ab")).recvs, [], .other 0,
        packet reqAll (ascii "alice") (ascii "pw") [], []⟩) :=
    loop_returns_of_exists (n := 2) (by decide +kernel)
  obtain ⟨c', hr, -⟩ := getResponse_ok_returns
    (c := ⟨(Conn.delivering (resOk ++ word 5 ++ ascii "ab")).recvs, [], .other 0,
      packet reqAll (ascii "alice") (ascii "pw") [], []⟩)
    (Conn.recvRecoverable_delivering (resOk ++ word 5 ++ ascii "ab")) (by rw [hdel]; exact hok)
    (.inr (Conn.not_interrupted_delivering (resOk ++ word 5 ++ ascii "ab")))
  have htaken : taken (resOk ++ word 5 ++ ascii "ab") =
      okResponse (ascii "ab" ++ [0, 0, 0]) := by
    decide +kernel
  rw [hdel, htaken] at hr
  have hcmd := sendCmd_returns hsend hr
  refine ⟨hcut, ⟨_, download_returns hcmd, ?_, rfl⟩, fun hhonest => ?_⟩
  · rw [conclude_okResponse_files (by decide)]
    rfl
  · rw [← hdel] at hcut
    have hnil := (honest_iff_of_cutOff (t := receiving (resOk ++ word 5 ++ ascii "ab")) hcut hcmd
      (.inr (by decide +kernel))).1 hhonest
    exact absurd hnil (by decide +kernel)

end UserDirectory

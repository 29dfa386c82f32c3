import Esp32Utils.HttpExchanges
import Mathlib.Data.List.Induction

/-! # Bodies over several exchanges

The response object is kept from one exchange to the next, and every chunk is appended to
its body. -/
namespace ResponseBody

open ByteStrings HttpRequests HttpClient HttpExchanges

/-- The data of the exchanges since the response was created, behind the body it had at
first. -/
def delivered (req : HttpRequest) (es : List Event) : Bytes :=
  es.foldl (fun data e => match e with
    | .createResponse => []
    | .request _ x => if x.initialised then data ++ received x.events else data
    | _ => data) (bodyOf req)

variable {client : ESP32HttpClient} {req : HttpRequest} {es : List Event} {method : HttpMethod}
  {x : Exchange}

theorem finished_bodyOf : bodyOf (finished x req) = bodyOf req ++ received x.events := by
  rw [bodyOf, finished_response, Option.map_some, Option.getD_some]

theorem after_bodyOf : bodyOf (after client req es) = delivered req es := by
  induction es using List.reverseRecOn with
  | nil => rfl
  | append_singleton es e ih =>
    rw [after_append, delivered, List.foldl_append, ← delivered, ← ih]
    cases e with
    | setHeader header value => rfl
    | setKeepConnection val => rfl
    | createResponse => rfl
    | request method x =>
      simp only [List.foldl_cons, List.foldl_nil, next]
      cases hx : x.initialised with
      | true => rw [performed_request hx, finished_bodyOf, if_pos rfl]
      | false => rw [performed_uninitialised hx, if_neg Bool.false_ne_true]; rfl

theorem performed_body (hx : x.initialised = true) :
    (performed client req method x).1.2.response.map HttpResponse.body =
      some (bodyOf req ++ received x.events) := by
  rw [performed_request hx, finished_response, Option.map_some]

/-- After every successful call the body is what was delivered during that call, exactly
when no call succeeds after an earlier one was delivered any data. -/
theorem body_of_latest_exchange_iff (client : ESP32HttpClient) (req : HttpRequest)
    (es : List Event) :
    (∀ before method x rest, es = before ++ .request method x :: rest →
      (performed client (after client req before) method x).1.1 = true →
      (performed client (after client req before) method x).1.2.response.map HttpResponse.body =
        some (received x.events)) ↔
    ∀ before method x rest, es = before ++ .request method x :: rest →
      x.initialised = true → x.ok = true → delivered req before = [] := by
  have hcall : ∀ before method x, x.initialised = true →
      ((performed client (after client req before) method x).1.2.response.map HttpResponse.body =
        some (received x.events) ↔ delivered req before = []) := by
    intro before method x hx
    rw [performed_body hx, after_bodyOf, Option.some.injEq, List.append_left_eq_self]
  constructor
  · intro h before method x rest hes hx hok
    rw [← hcall before method x hx]
    exact h before method x rest hes (performed_true_iff.mpr ⟨hx, hok⟩)
  · intro h before method x rest hes hret
    obtain ⟨hx, hok⟩ := performed_true_iff.mp hret
    rw [hcall before method x hx]
    exact h before method x rest hes hx hok

def answered (text : String) : Exchange :=
  ⟨true, [.onData (ascii text), .onFinish], true, 200, (ascii text).length⟩

/-- The second of two calls returns true with both bodies. -/
theorem second_body_appended :
    let before := [Event.request .get (answered "ab")]
    (performed smallClient (after smallClient pageRequest before) .get (answered "cd")).1.1 = true ∧
      (performed smallClient (after smallClient pageRequest before) .get
        (answered "cd")).1.2.response.map HttpResponse.body = some (ascii "abcd") ∧
      received (answered "cd").events = ascii "cd" ∧
      (performed smallClient (after smallClient pageRequest before) .get
        (answered "cd")).1.2.response.map HttpResponse.body ≠
          some (received (answered "cd").events) := by
  decide

end ResponseBody

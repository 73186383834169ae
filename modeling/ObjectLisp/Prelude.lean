/-!
# The prelude

Macros that every interpreter starts with, as a text of the language itself.
-/

namespace ObjectLisp.Prelude

/-- The file name of the prelude in reports. -/
def fileName : String := "<prelude>"

/-- The text of the prelude. -/
def text : String := "; The prelude

; Macros on top of the special forms, defined in the package system when an
; interpreter starts, unless it is set up without them.

(defmacro defun (name params &rest body)
  `(def ,name (lambda ,params ,@body)))

(defmacro when (test &rest body)
  `(if ,test (block ,@body)))

(defmacro unless (test &rest body)
  `(if ,test null (block ,@body)))

(defmacro cond (&rest clauses)
  (if (null? clauses)
      null
      (let ((clause (car clauses)))
        `(if ,(car clause)
             (block ,@(cdr clause))
             (cond ,@(cdr clauses))))))

(defmacro let* (bindings &rest body)
  (if (null? bindings)
      `(block ,@body)
      `(let (,(car bindings))
         (let* ,(cdr bindings) ,@body))))

(defmacro inc! (place &optional (delta 1))
  `(set! ,place (+ ,place ,delta)))

(defmacro dec! (place &optional (delta 1))
  `(set! ,place (- ,place ,delta)))

(export '(defun when unless cond let* inc! dec!))
"

end ObjectLisp.Prelude

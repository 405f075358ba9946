import ExprLang.Main
import ExprLang.Proofs.Commentary
import ExprLang.Proofs.Degradation
import ExprLang.Proofs.Naming
import ExprLang.Proofs.Recovery
import ExprLang.Proofs.WellFormed
import ExprLang.Proofs.Checked
import ExprLang.Proofs.Distinct
import ExprLang.Proofs.Lookup
import ExprLang.Proofs.TableOrder
import ExprLang.Proofs.Progress
import ExprLang.Proofs.Tandem.Blocks
import ExprLang.Proofs.Tandem.Leading
import ExprLang.Proofs.Tandem.Segments
import ExprLang.Proofs.Postfixes
import ExprLang.Proofs.Forest.Sections
import ExprLang.Proofs.Retention
import ExprLang.Proofs.CaseFolding
import ExprLang.Proofs.Composition
import ExprLang.Proofs.Modifiers
import ExprLang.Proofs.Numbering
import ExprLang.Proofs.Quoting
import ExprLang.Proofs.Exactness
import ExprLang.Proofs.Diagnostics
import ExprLang.Proofs.Keywords
import ExprLang.Proofs.Skipping
import ExprLang.Proofs.Forest.Cutting
import ExprLang.Proofs.Definitions
import ExprLang.Proofs.Declining

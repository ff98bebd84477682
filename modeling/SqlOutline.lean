import SqlOutline.Located
import SqlOutline.Lookahead
import SqlOutline.Main
import SqlOutline.Proofs.Checked.Report
import SqlOutline.Proofs.Json.Report
import SqlOutline.Proofs.Layout
import SqlOutline.Proofs.Lookahead.Bounds
import SqlOutline.Proofs.DottedName
import SqlOutline.Proofs.EnclosedContents
import SqlOutline.Proofs.FirstWord
import SqlOutline.Proofs.JoinSplit
import SqlOutline.Proofs.InputChoice
import SqlOutline.Proofs.LikeSearch
import SqlOutline.Proofs.Limit
import SqlOutline.Proofs.RoundTrip
import SqlOutline.Proofs.SortKeys
import SqlOutline.Proofs.Words
import SqlOutline.Proofs.Tiling
import SqlOutline.Proofs.UpperCase.Outline
import SqlOutline.Proofs.Counterparts
import SqlOutline.Proofs.StatementEnd
